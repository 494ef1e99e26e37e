import Mathlib.Data.List.Sort

/-! # Headers, filters, rules and results

The records of `packet_classifier.h`. Fixed-width fields keep their C++ widths; `rule_id` and
`priority` are `int` in the source and are only compared, never computed on, so they are `Int`. -/

namespace Classifier

/-- The fields of a packet that classification reads. -/
structure PacketHeader where
  sourceIp : UInt32
  destIp : UInt32
  sourcePort : UInt16
  destPort : UInt16
  protocol : UInt8
  deriving DecidableEq, Repr

/-- Both bounds zero is the wildcard; any other pair is an inclusive range. -/
def portRangeAdmits (low high port : UInt16) : Bool :=
  (low == 0 && high == 0) || (low ≤ port && port ≤ high)

/-- A rule's filter. The prefixes are CIDR strings such as `"192.168.1.0/24"`, empty for any. -/
structure PacketFilter where
  sourceIpPrefix : String := ""
  destIpPrefix : String := ""
  sourcePortLow : UInt16 := 0
  sourcePortHigh : UInt16 := 0
  destPortLow : UInt16 := 0
  destPortHigh : UInt16 := 0
  protocol : UInt8 := 0
  deriving DecidableEq, Repr

/-- `PacketFilter::matches`. The two prefixes are left to the tries: the source returns `true`
whatever they are. -/
def PacketFilter.matches (f : PacketFilter) (header : PacketHeader) : Bool :=
  (f.protocol == 0 || f.protocol == header.protocol) &&
    portRangeAdmits f.sourcePortLow f.sourcePortHigh header.sourcePort &&
    portRangeAdmits f.destPortLow f.destPortHigh header.destPort

inductive ActionType where
  | forward
  | drop
  | log
  | mirror
  deriving DecidableEq, Repr

structure ActionList where
  primaryAction : ActionType := .drop
  nextHopId : Int := -1
  logIdentifier : String := ""
  deriving DecidableEq, Repr

/-- `ClassificationRule`. The counters are `uint64_t`, so `UInt64`. -/
structure ClassificationRule where
  ruleId : Int
  priority : Int
  filter : PacketFilter := {}
  actions : ActionList := {}
  enabled : Bool := true
  matchCount : UInt64 := 0
  lastMatchTime : UInt64 := 0
  deriving DecidableEq, Repr

structure ClassificationResult where
  matched : Bool := false
  matchedRuleId : Int := -1
  actions : ActionList := {}
  deriving DecidableEq, Repr

/-- The test in the loop of `classify`: `rule->enabled` and `rule->filter.matches(header)`. -/
def ClassificationRule.admits (rule : ClassificationRule) (header : PacketHeader) : Bool :=
  rule.enabled && rule.filter.matches header

/-- The result `classify` returns when `rule` wins. -/
def ClassificationRule.result (rule : ClassificationRule) : ClassificationResult :=
  { matched := true, matchedRuleId := rule.ruleId, actions := rule.actions }

/-- The result `classify` returns when no rule wins. -/
def noMatch : ClassificationResult := { matched := false, matchedRuleId := -1 }

end Classifier
