import Libbcache.BtreeCache.Node
import Libbcache.BtreeCache.Hash
import Libbcache.BtreeCache.Alloc
import Libbcache.BtreeCache.Scan
import Libbcache.BtreeCache.Invariant
import Libbcache.BtreeCache.AllocInv
import Libbcache.BtreeCache.ScanInv
import Libbcache.BtreeCache.Reachable
import Libbcache.BtreeCache.ScanReserve
import Libbcache.BtreeCache.CannibalizeLock
import Libbcache.BtreeCache.NodeGet
import Libbcache.BtreeCache.NodeGetSafety
import Libbcache.BtreeCache.Interference
import Libbcache.BtreeCache.Exit
import Libbcache.BtreeCache.HashIndex
import Libbcache.BtreeIter.Linked
import Libbcache.Alloc.Group
import Libbcache.Request.Congested
import Libbcache.Request.Sequential
import Libbcache.Request.Search
import Libbcache.Request.Read
import Libbcache.Request.MakeRequest
import Libbcache.Request.CachedDevRef
import Libbcache.Debug.Dump
import Libbcache.Debug.Stream
import Libbcache.Debug.Verify
import Libbcache.Sysfs.Label
import Libbcache.Sysfs.Quantiles
import Libbcache.Sysfs.FsStats
