import Classifier.Classify
import Classifier.BloomFilter

/-! # The Bloom pre-filter of the classifier

`PacketClassifier` of `packet_classifier.cpp` with its `bloom_filter_` member, which
`PacketClassifier(true)` sets to `BloomFilter(10000, 0.01)` and `PacketClassifier(false)` leaves
null. `addRule`, `modifyRule` and `updateSpecializedStructuresForRule` insert
`filter.toString()` of an enabled rule; `classify` asks `possiblyContains(header.toString())`
and on either answer goes on to the same scan. Forgetting the filter gives the classifier of
`Classify.lean`, and every call returns the same in both configurations. -/

namespace Classifier

/-- `std::to_string` of a port range, or `any` for the wildcard. -/
def portRangeText (low high : UInt16) : String :=
  if low = 0 ∧ high = 0 then "any" else toString low ++ "-" ++ toString high

/-- `PacketHeader::toString`. -/
def PacketHeader.toString (h : PacketHeader) : String :=
  "SrcIP: " ++ ToString.toString h.sourceIp ++ ", DstIP: " ++ ToString.toString h.destIp ++
    ", SrcPort: " ++ ToString.toString h.sourcePort ++ ", DstPort: " ++
    ToString.toString h.destPort ++ ", Proto: " ++ ToString.toString h.protocol.toNat

/-- `PacketFilter::toString`. -/
def PacketFilter.toString (f : PacketFilter) : String :=
  "SrcIP_Pfx: " ++ (if f.sourceIpPrefix.isEmpty then "any" else f.sourceIpPrefix) ++
    ", DstIP_Pfx: " ++ (if f.destIpPrefix.isEmpty then "any" else f.destIpPrefix) ++
    ", SrcPort: " ++ portRangeText f.sourcePortLow f.sourcePortHigh ++
    ", DstPort: " ++ portRangeText f.destPortLow f.destPortHigh ++
    ", Proto: " ++ (if f.protocol = 0 then "any" else ToString.toString f.protocol.toNat)

/-- `PacketClassifier` with `bloom_filter_`, null unless `use_bloom_filter_`. -/
structure BloomClassifier extends PacketClassifier where
  bloomFilter : Option BloomFilter

namespace BloomClassifier

/-- `PacketClassifier(enable_bloom_filter_optimization)`. `BloomFilter(10000, 0.01)` resolves to
the `(num_items, false_positive_prob)` constructor, whose formulas give 95851 bits and 7
hashes. -/
def new (useBloomFilter : Bool) : BloomClassifier :=
  { useBloomFilter,
    bloomFilter := if useBloomFilter then some (BloomFilter.ofParams 10000 true 95851 7) else none }

section Calls

variable (srt : StdSort) (stdHash : List UInt8 → UInt64)

/-- `bloom_filter_->insert(rule->filter.toString())`, done for an enabled rule when the filter
is on. -/
def insertRule (bc : BloomClassifier) (rule : ClassificationRule) : BloomClassifier :=
  if bc.useBloomFilter && rule.enabled then
    { bc with bloomFilter := bc.bloomFilter.map (·.insertString stdHash rule.filter.toString) }
  else bc

/-- The block of `addRule` and `modifyRule` that inserts the stored rule once more. -/
def insertStored (bc : BloomClassifier) (ruleId : Int) : BloomClassifier :=
  match bc.ruleManager.getRule ruleId with
  | some rule => bc.insertRule stdHash rule
  | none => bc

/-- `updateSpecializedStructuresForRule`: the trie and tree updates are placeholders; it fails
when `getRule` does not find the rule, and inserts the rule into the filter otherwise. -/
def updateSpecializedStructuresForRule (bc : BloomClassifier) (ruleId : Int) :
    Bool × BloomClassifier :=
  match bc.ruleManager.getRule ruleId with
  | some rule => (true, bc.insertRule stdHash rule)
  | none => (false, bc)

/-- The part of `addRule` and `modifyRule` after a successful store call, under
`specialized_structures_lock_`. -/
def afterStoreWrite (bc : BloomClassifier) (ruleId : Int) : Bool × BloomClassifier :=
  let upd := bc.updateSpecializedStructuresForRule stdHash ruleId
  if upd.1 then (true, upd.2.insertStored stdHash ruleId) else (false, upd.2)

def addRule (bc : BloomClassifier) (rule : ClassificationRule) : Bool × BloomClassifier :=
  let (ok, rm) := bc.ruleManager.addRule srt rule
  if ok then afterStoreWrite stdHash { bc with ruleManager := rm } rule.ruleId else (false, bc)

/-- `deleteRule`: `removeRuleFromSpecializedStructures` only logs, and nothing leaves the
filter. -/
def deleteRule (bc : BloomClassifier) (ruleId : Int) : Bool × BloomClassifier :=
  let (ok, rm) := bc.ruleManager.deleteRule srt ruleId
  (ok, { bc with ruleManager := rm })

def modifyRule (bc : BloomClassifier) (ruleId : Int) (newRuleData : ClassificationRule) :
    Bool × BloomClassifier :=
  let (ok, rm) := bc.ruleManager.modifyRule srt ruleId newRuleData
  if ok then afterStoreWrite stdHash { bc with ruleManager := rm } ruleId else (false, bc)

/-- `classify`. With the filter on, a `false` from `possiblyContains` only writes a trace line:
both answers go on to the scan of `Classify.lean`. -/
def classify (bc : BloomClassifier) (header : PacketHeader) (now : UInt64) :
    ClassificationResult × BloomClassifier :=
  let scan := bc.toPacketClassifier.classify header now
  let scan := (scan.1, { bc with toPacketClassifier := scan.2 })
  match bc.useBloomFilter, bc.bloomFilter with
  | true, some bf => if bf.possiblyContainsString stdHash header.toString then scan else scan
  | _, _ => scan

/-- `classifyBatch`: `classify` on each header in turn, results in order. -/
def classifyBatch (bc : BloomClassifier) : List PacketHeader → UInt64 →
    List ClassificationResult × BloomClassifier
  | [], _ => ([], bc)
  | header :: headers, now =>
    let r := bc.classify stdHash header now
    let rs := r.2.classifyBatch headers now
    (r.1 :: rs.1, rs.2)

inductive Call where
  | addRule (rule : ClassificationRule)
  | deleteRule (ruleId : Int)
  | modifyRule (ruleId : Int) (newRuleData : ClassificationRule)
  | classify (header : PacketHeader) (now : UInt64)
  | classifyBatch (headers : List PacketHeader) (now : UInt64)
  | getStatistics
  | getRuleStatistics (ruleId : Int)
  | resetStatistics
  | resetRuleStatistics (ruleId : Int)

inductive Reply where
  | ok (b : Bool)
  | result (res : ClassificationResult)
  | results (res : List ClassificationResult)
  | statistics (stats : List (Int × UInt64))
  | count (n : UInt64)
  | done
  deriving DecidableEq, Repr

def call (bc : BloomClassifier) : Call → Reply × BloomClassifier
  | .addRule rule => let r := bc.addRule srt stdHash rule; (.ok r.1, r.2)
  | .deleteRule ruleId => let r := bc.deleteRule srt ruleId; (.ok r.1, r.2)
  | .modifyRule ruleId newRuleData =>
    let r := bc.modifyRule srt stdHash ruleId newRuleData; (.ok r.1, r.2)
  | .classify header now => let r := bc.classify stdHash header now; (.result r.1, r.2)
  | .classifyBatch headers now =>
    let r := bc.classifyBatch stdHash headers now; (.results r.1, r.2)
  | .getStatistics => (.statistics bc.toPacketClassifier.getStatistics, bc)
  | .getRuleStatistics ruleId => (.count (bc.toPacketClassifier.getRuleStatistics ruleId), bc)
  | .resetStatistics => (.done, { bc with toPacketClassifier := bc.resetStatistics })
  | .resetRuleStatistics ruleId =>
    (.done, { bc with toPacketClassifier := bc.resetRuleStatistics ruleId })

def replies (bc : BloomClassifier) : List Call → List Reply
  | [] => []
  | c :: cs => let r := bc.call srt stdHash c; r.1 :: r.2.replies cs

def after (bc : BloomClassifier) : List Call → BloomClassifier
  | [] => bc
  | c :: cs => (bc.call srt stdHash c).2.after cs

def Call.toCalls : Call → List PacketClassifier.Call
  | .addRule rule => [.addRule rule]
  | .deleteRule ruleId => [.deleteRule ruleId]
  | .modifyRule ruleId newRuleData => [.modifyRule ruleId newRuleData]
  | .classify header now => [.classify header now]
  | .classifyBatch headers now => headers.map (.classify · now)
  | .getStatistics | .getRuleStatistics _ => []
  | .resetStatistics => [.resetStatistics]
  | .resetRuleStatistics ruleId => [.resetRuleStatistics ruleId]


end Calls

/-! ## Forgetting the filter -/

section Refinement

variable {srt : StdSort} {stdHash : List UInt8 → UInt64}

@[simp] theorem insertRule_toPacketClassifier (bc : BloomClassifier) (rule : ClassificationRule) :
    (bc.insertRule stdHash rule).toPacketClassifier = bc.toPacketClassifier := by
  unfold insertRule; split <;> rfl

@[simp] theorem insertStored_toPacketClassifier (bc : BloomClassifier) (ruleId : Int) :
    (bc.insertStored stdHash ruleId).toPacketClassifier = bc.toPacketClassifier := by
  unfold insertStored; split <;> simp

@[simp] theorem afterStoreWrite_fst (bc : BloomClassifier) (ruleId : Int) :
    (afterStoreWrite stdHash bc ruleId).1 =
      PacketClassifier.updateSpecializedStructuresForRule bc.ruleManager ruleId := by
  unfold afterStoreWrite updateSpecializedStructuresForRule
    PacketClassifier.updateSpecializedStructuresForRule
  split <;> simp_all

@[simp] theorem afterStoreWrite_toPacketClassifier (bc : BloomClassifier) (ruleId : Int) :
    (afterStoreWrite stdHash bc ruleId).2.toPacketClassifier = bc.toPacketClassifier := by
  unfold afterStoreWrite updateSpecializedStructuresForRule
  split <;> simp_all

theorem classify_eq (bc : BloomClassifier) (header : PacketHeader) (now : UInt64) :
    bc.classify stdHash header now = ((bc.toPacketClassifier.classify header now).1,
      { bc with toPacketClassifier := (bc.toPacketClassifier.classify header now).2 }) := by
  unfold classify; split <;> simp

theorem classifyBatch_toPacketClassifier (bc : BloomClassifier) (headers : List PacketHeader)
    (now : UInt64) : (bc.classifyBatch stdHash headers now).2.toPacketClassifier =
      (headers.map (.classify · now)).foldl (PacketClassifier.call srt) bc.toPacketClassifier := by
  induction headers generalizing bc with
  | nil => rfl
  | cons header headers ih => simp [classifyBatch, classify_eq, ih, PacketClassifier.call]

theorem call_toPacketClassifier (bc : BloomClassifier) (c : Call) :
    (bc.call srt stdHash c).2.toPacketClassifier =
      c.toCalls.foldl (PacketClassifier.call srt) bc.toPacketClassifier := by
  cases c with
  | addRule rule =>
    simp only [call, addRule, Call.toCalls, List.foldl, PacketClassifier.call, PacketClassifier.addRule]
    split <;> simp
  | modifyRule ruleId newRuleData =>
    simp only [call, modifyRule, Call.toCalls, List.foldl, PacketClassifier.call, PacketClassifier.modifyRule]
    split <;> simp
  | classify header now => simp [call, classify_eq, Call.toCalls, PacketClassifier.call]
  | classifyBatch headers now => exact classifyBatch_toPacketClassifier bc headers now
  | _ => rfl

theorem after_toPacketClassifier (bc : BloomClassifier) (calls : List Call) :
    (bc.after srt stdHash calls).toPacketClassifier =
      (calls.flatMap Call.toCalls).foldl (PacketClassifier.call srt) bc.toPacketClassifier := by
  induction calls generalizing bc with
  | nil => rfl
  | cons c calls ih => simp only [after, ih, call_toPacketClassifier, List.flatMap_cons, List.foldl_append]

/-- With the filter on or off, after any calls `classify` returns the rule of highest priority
that admits the header, as `Classify.lean` says. -/
theorem classify_after (useBloomFilter : Bool) (calls : List Call) (header : PacketHeader)
    (now : UInt64) :
    let bc := (new useBloomFilter).after srt stdHash calls
    PacketClassifier.ClassifyPost bc.ruleManager header (bc.classify stdHash header now).1 := by
  intro bc
  have hrun : bc.toPacketClassifier =
      PacketClassifier.run srt useBloomFilter (calls.flatMap Call.toCalls) :=
    after_toPacketClassifier _ calls
  rw [classify_eq]
  show PacketClassifier.ClassifyPost bc.toPacketClassifier.ruleManager header
    (bc.toPacketClassifier.classify header now).1
  rw [hrun]
  exact PacketClassifier.classify_post (PacketClassifier.cacheInv_run useBloomFilter _) header now

end Refinement

/-! ## The two configurations -/

section Configurations

variable (srt : StdSort) (stdHash : List UInt8 → UInt64)

theorem classify_congr {bc₁ bc₂ : BloomClassifier} (h : bc₁.ruleManager = bc₂.ruleManager)
    (header : PacketHeader) (now : UInt64) :
    (bc₁.classify stdHash header now).1 = (bc₂.classify stdHash header now).1 ∧
      (bc₁.classify stdHash header now).2.ruleManager =
        (bc₂.classify stdHash header now).2.ruleManager := by
  simp only [classify_eq, PacketClassifier.classify, h]
  split <;> simp [h]

theorem classifyBatch_congr {bc₁ bc₂ : BloomClassifier} (h : bc₁.ruleManager = bc₂.ruleManager)
    (headers : List PacketHeader) (now : UInt64) :
    (bc₁.classifyBatch stdHash headers now).1 = (bc₂.classifyBatch stdHash headers now).1 ∧
      (bc₁.classifyBatch stdHash headers now).2.ruleManager =
        (bc₂.classifyBatch stdHash headers now).2.ruleManager := by
  induction headers generalizing bc₁ bc₂ with
  | nil => exact ⟨rfl, h⟩
  | cons header headers ih =>
    obtain ⟨hr, hs⟩ := classify_congr stdHash h header now
    obtain ⟨hrs, hss⟩ := ih hs
    simp only [classifyBatch]
    exact ⟨by rw [hr, hrs], hss⟩

theorem call_congr {bc₁ bc₂ : BloomClassifier} (h : bc₁.ruleManager = bc₂.ruleManager)
    (c : Call) : (bc₁.call srt stdHash c).1 = (bc₂.call srt stdHash c).1 ∧
      (bc₁.call srt stdHash c).2.ruleManager = (bc₂.call srt stdHash c).2.ruleManager := by
  cases c with
  | addRule rule => simp only [call, addRule, h]; split <;> simp [h]
  | deleteRule ruleId => simp [call, deleteRule, h]
  | modifyRule ruleId newRuleData => simp only [call, modifyRule, h]; split <;> simp [h]
  | classify header now =>
    obtain ⟨hr, hs⟩ := classify_congr stdHash h header now
    exact ⟨congrArg Reply.result hr, hs⟩
  | classifyBatch headers now =>
    obtain ⟨hr, hs⟩ := classifyBatch_congr stdHash h headers now
    exact ⟨congrArg Reply.results hr, hs⟩
  | getStatistics => simp [call, PacketClassifier.getStatistics, h]
  | getRuleStatistics ruleId => simp [call, PacketClassifier.getRuleStatistics, h]
  | resetStatistics => simp [call, PacketClassifier.resetStatistics, h]
  | resetRuleStatistics ruleId => simp [call, PacketClassifier.resetRuleStatistics, h]

theorem replies_congr {bc₁ bc₂ : BloomClassifier} (h : bc₁.ruleManager = bc₂.ruleManager)
    (calls : List Call) : bc₁.replies srt stdHash calls = bc₂.replies srt stdHash calls := by
  induction calls generalizing bc₁ bc₂ with
  | nil => rfl
  | cons c calls ih =>
    obtain ⟨hr, hs⟩ := call_congr srt stdHash h c
    simp only [replies, hr, ih hs]

/-- `PacketClassifier(true)` and `PacketClassifier(false)` return the same to every call of every
sequence: the pre-filter changes no classification result and no statistic. -/
theorem replies_independent_of_bloom_filter (calls : List Call) :
    (new true).replies srt stdHash calls = (new false).replies srt stdHash calls :=
  replies_congr srt stdHash (show (new true).ruleManager = (new false).ruleManager from rfl) calls

end Configurations

end BloomClassifier

end Classifier
