import StdPrograms.Foundation.LittleEndian
import StdPrograms.Foundation.ReadProgram
import StdPrograms.Ouou.Value
import StdPrograms.Ouou.Util.Stream
import StdPrograms.Ouou.Util.CompTypes
import StdPrograms.Ouou.Util.LargeInt
import StdPrograms.Ouou.Util.FixedWidth
import StdPrograms.Foundation.Words
import StdPrograms.Ouou.Util.Functions
import StdPrograms.Ouou.Message.BinaryObject
import StdPrograms.Ouou.Message.VarFields
import StdPrograms.Ouou.Message.ResponseTypes
import StdPrograms.Ouou.Message.Message
import StdPrograms.Ouou.Net.Reassembly
import StdPrograms.Ouou.Net.BlockingPath
import StdPrograms.Ouou.Net.PeerClose
import StdPrograms.Ouou.Message.Confinement
import StdPrograms.Ouou.Message.MultipleMessage
import StdPrograms.Ouou.Message.Compression
import StdPrograms.Ouou.Message.MessageEquality
import StdPrograms.Ouou.Message.PriceOrder
import StdPrograms.Ouou.Message.FieldIds
import StdPrograms.Ouou.Message.BrokerQueues
import StdPrograms.Ouou.Message.ClassRegistry
import StdPrograms.Ouou.Message.PriceMarkets
import StdPrograms.Release.PacketBounds
import StdPrograms.Release.PacketRoundTrip
import StdPrograms.Release.PacketStream
import StdPrograms.Release.Tea
import StdPrograms.Release.PacketCipher
import StdPrograms.Foundation.Transitions
import StdPrograms.Foundation.Effect
import StdPrograms.Release.SSLClient
import StdPrograms.Release.LoginCredentials
import StdPrograms.Release.Readable
import StdPrograms.Profile.DrainOrder
import StdPrograms.Profile.WakeUps
import StdPrograms.Money.Interchange
import StdPrograms.Money.Types
import StdPrograms.Money.BigInt
import StdPrograms.Money.BlockChain
import StdPrograms.Money.DatFile
import StdPrograms.Utils.BigInt
import StdPrograms.Foundation.BitFields
import StdPrograms.Utils.BitStream
import StdPrograms.Utils.FieldRoundTrip
import StdPrograms.Utils.BitDump
import StdPrograms.Base.TimerQueue
import StdPrograms.Base.SiftLoops
import StdPrograms.Foundation.SignedInt
import StdPrograms.Foundation.Scale
import StdPrograms.Foundation.Threads
import StdPrograms.Allocate.Allocator
import StdPrograms.Misc.SemQueue
import StdPrograms.Misc.FileCopy
import StdPrograms.Misc.StringSplit
import StdPrograms.Daily.Client
import StdPrograms.Zkcfg.ConfigManager
import StdPrograms.Foundation.LastWins
import StdPrograms.Money.Advances
import StdPrograms.Money.Quotes
import StdPrograms.Money.OutputStream
import StdPrograms.Ouou.Net.LinuxClient
import StdPrograms.Ouou.Net.FreshConnection
import StdPrograms.Foundation.Grid
import StdPrograms.Hobbies.LargestSquare
import StdPrograms.Hobbies.MaxSquare
import StdPrograms.Foundation.LinkedList
import StdPrograms.Hobbies.ListQuickSort
import StdPrograms.Foundation.PointerTree
import StdPrograms.Hobbies.MorrisTraversal
import StdPrograms.Foundation.Palindromes
import StdPrograms.Hobbies.LongestPalindrome
import StdPrograms.Foundation.CountedLoop
import StdPrograms.Foundation.Borders
import StdPrograms.Hobbies.StrStr
import StdPrograms.Foundation.Patterns
import StdPrograms.Hobbies.RegexMatch
import StdPrograms.Hobbies.Calculator
import StdPrograms.Foundation.Parts
import StdPrograms.Hobbies.CoinChange
import StdPrograms.Foundation.Exchange
import StdPrograms.Foundation.SiftDown
import StdPrograms.Hobbies.KthLargest
import StdPrograms.Foundation.Laps
import StdPrograms.Hobbies.RotateArray
import StdPrograms.Foundation.NextArrangement
import StdPrograms.Hobbies.NextPermutation
import StdPrograms.Foundation.Chases
import StdPrograms.Hobbies.CycleDetection
import StdPrograms.Foundation.CommonSuffix
import StdPrograms.Hobbies.ListIntersection
import StdPrograms.Foundation.Sorting
import StdPrograms.Foundation.Numerals
import StdPrograms.Hobbies.LargestNumber
import StdPrograms.Hobbies.CompareFunc
import StdPrograms.Foundation.SortedTable
import StdPrograms.Hobbies.MatrixSearch
import StdPrograms.Foundation.Bisection
import StdPrograms.Hobbies.RotatedSearch
import StdPrograms.Hobbies.RotatedCopySearch
import StdPrograms.Foundation.Balanced
import StdPrograms.Hobbies.Brackets
import StdPrograms.Foundation.Concatenations
import StdPrograms.Hobbies.WordBreak
import StdPrograms.Foundation.BreadthFirst
import StdPrograms.Hobbies.WordLadder
import StdPrograms.Foundation.TwoPointers
import StdPrograms.Hobbies.FourSum
import StdPrograms.Hobbies.ThreeSumClosest
import StdPrograms.Hobbies.RestoreAddresses
import StdPrograms.Hobbies.GenerateParentheses
import StdPrograms.Hobbies.CombinationSum
import StdPrograms.Foundation.Runs
import StdPrograms.Hobbies.CountAndSay
import StdPrograms.Hobbies.KGroup
import StdPrograms.Hobbies.ListInsertionSort
import StdPrograms.Hobbies.MySqrt
import StdPrograms.Foundation.BitCounts
import StdPrograms.Hobbies.SingleAmongTriples
import StdPrograms.Hobbies.SingleAmongPairs
import StdPrograms.Hobbies.ReorderList
import StdPrograms.Hobbies.MaxArea
import StdPrograms.Hobbies.PathSum
import StdPrograms.Hobbies.CompareVersion
import StdPrograms.Hobbies.Zigzag
import StdPrograms.Hobbies.CountPrimes
import StdPrograms.Hobbies.NearbyAlmostDuplicate
import StdPrograms.Hobbies.NearbyDuplicate
import StdPrograms.Hobbies.MyAtoi
import StdPrograms.Hobbies.MaxProduct
import StdPrograms.Hobbies.LongestValidParentheses
import StdPrograms.Hobbies.FirstMissingPositive
import StdPrograms.Hobbies.IsHappy
import StdPrograms.Hobbies.RemoveDuplicates
import StdPrograms.Hobbies.CommonElements
import StdPrograms.Hobbies.LongestPalindrome2
import StdPrograms.Misc.WaitQueue
import StdPrograms.Misc.LogThread
import StdPrograms.Release.EventLoop
import StdPrograms.Misc.Compare
import StdPrograms.Hobbies.Permute
import StdPrograms.Hobbies.Roman
import StdPrograms.Hobbies.MergeLists
import StdPrograms.Misc.Synchronized
import StdPrograms.Ouou.Net.WindowsClient
import StdPrograms.Utils.ArrayRoundTrip
import StdPrograms.Misc.SetIntersection
import StdPrograms.Misc.CharArray
import StdPrograms.Hobbies.ReverseBetween
import StdPrograms.Hobbies.DeleteDuplicates
import StdPrograms.Hobbies.Partition
import StdPrograms.Hobbies.PalindromeList
import StdPrograms.Hobbies.ThreeSum
import StdPrograms.Hobbies.MinStack
import StdPrograms.Hobbies.LongestSubstring
import StdPrograms.Hobbies.Isomorphic
import StdPrograms.Hobbies.MergeArrays
import StdPrograms.Hobbies.DfsBfs
import StdPrograms.Hobbies.HasPathSum
import StdPrograms.Hobbies.FindPeak
import StdPrograms.Hobbies.ExchangeOrders
import StdPrograms.Hobbies.ProductExceptSelf
import StdPrograms.Hobbies.ThirdMax
