import Classifier.Rule
import Classifier.RuleMap
import Classifier.RuleManager
import Classifier.PriorityCache
import Classifier.Classify
import Classifier.ReadWriteLock
import Classifier.LockOrder
import Classifier.Interleaving
import Classifier.IntervalTree
import Classifier.CompressedTrie
import Classifier.IntervalQuery
import Classifier.IntervalRuns
import Classifier.IntervalBalance
import Classifier.ConcurrentHash
import Classifier.HashContents
import Classifier.HashRuns
import Classifier.BloomFilter
import Classifier.PreFilter
import Classifier.MemoryPool
import Classifier.PoolRuns
import Classifier.ThreadPool
import Classifier.Rcu
import Classifier.Logging
