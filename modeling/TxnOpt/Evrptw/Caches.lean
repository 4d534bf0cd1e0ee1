import TxnOpt.Evidence.Codec
import TxnOpt.Evrptw.Neighborhoods
import TxnOpt.Evrptw.Screening
import TxnOpt.Evrptw.Validation
import Mathlib.Data.PNat.Notation

/-!
# The caches of the EVRPTW oracle

Route reports, screening decisions and plan keys are each kept in a cache of the least recently used.
-/

namespace TxnOpt.Evrptw

variable {ι K : Type} [DecidableEq ι] [CommRing K] [LinearOrder K]

/-! ### Route reports -/

/-- The cache with the instance that its reports are about. -/
structure RouteReportCache (ι K : Type) where
  capacity : ℕ+
  entries : OrderedDict (List String) (RouteReport K)
  counters : Counters
  context : Option ι

namespace RouteReportCache

/-- A cache before the first call. -/
def fresh (capacity : ℕ+) : RouteReportCache ι K := ⟨capacity, [], .zero, none⟩

def new (capacity : Int) : Except PyExc (RouteReportCache ι K) :=
  if h : 0 < capacity.toNat then .ok (fresh ⟨capacity.toNat, h⟩)
  else .error (.valueError "route report cache capacity must be a positive integer")

def statistics (cache : RouteReportCache ι K) : List (String × ℕ) :=
  [("route_validation_cache_hits", cache.counters.hits), ("route_validation_cache_misses", cache.counters.misses),
    ("route_validation_cache_size", cache.entries.length), ("route_validation_cache_capacity", cache.capacity),
    ("route_validation_cache_evictions", cache.counters.evictions)]

/-- The call on the entries, once the instance is known to be the right one. -/
def fetchReport (problem : Problem K) (route : List String) (cache : RouteReportCache ι K) :
    Except PyExc (RouteReport K) × RouteReportCache ι K :=
  match fetch cache.capacity (fun route => .ok (problem.validateRoute route)) route cache.entries with
  | (.error error, _) => (.error error, cache)
  | (.ok (report, use), entries) => (.ok report, { cache with entries, counters := cache.counters.count use })

/-- `resolve` for the instance object `context`. -/
def resolve (problemOf : ι → Problem K) (context : ι) (route : List String) (cache : RouteReportCache ι K) :
    Except PyExc (RouteReport K) × RouteReportCache ι K :=
  match cache.context with
  | none => fetchReport (problemOf context) route { cache with context := some context }
  | some known =>
      if known = context then fetchReport (problemOf context) route cache
      else (.error (.valueError "a route report cache cannot cross instance contexts"), cache)

end RouteReportCache

/-! ### Screening decisions and plan keys -/

/-- The parts of the oracle that screening and keying use. -/
structure EVRPTWOracle (K : Type) [Zero K] [LT K] where
  inst : Problem K
  planKeyPrefix : Bytes
  planKeyCache : OrderedDict EVRPTWPlan String
  routeScreenCacheCapacity : ℕ+
  routeScreenCache : OrderedDict (List String) Bool
  routeScreenCounters : Counters

namespace EVRPTWOracle

/-- An oracle before the first call, for the bytes of the digest of its instance. -/
def fresh (inst : Problem K) (instanceDigest : Bytes) (capacity : ℕ+) : EVRPTWOracle K :=
  ⟨inst, encodeUtf8 "txnopt-evrptw-plan-key-v1\x00".toList ++ instanceDigest, [], capacity, [], .zero⟩

def new (inst : Problem K) (instanceDigest : Bytes) (routeScreenCacheCapacity : Int) :
    Except PyExc (EVRPTWOracle K) :=
  if h : 0 < routeScreenCacheCapacity.toNat then .ok (fresh inst instanceDigest ⟨routeScreenCacheCapacity.toNat, h⟩)
  else .error (.valueError "route_screen_cache_capacity must be a positive integer")

/-- `_screen_route`. -/
def screenRoute (route : List String) (oracle : EVRPTWOracle K) : Except PyExc Bool × EVRPTWOracle K :=
  match fetch oracle.routeScreenCacheCapacity oracle.inst.screenedRoute route oracle.routeScreenCache with
  | (.error error, _) => (.error error, oracle)
  | (.ok (cached, use), entries) =>
      (.ok cached, { oracle with
        routeScreenCache := entries, routeScreenCounters := oracle.routeScreenCounters.count use })

/-- The digest that `stable_key` stores for a plan. -/
def planKey (sha : Sha256) (oracle : EVRPTWOracle K) (candidate : EVRPTWPlan) : String :=
  let encodedRoutes := encodeUtf8 (Json.render Json.compact 0
    (.arr (candidate.customerRoutes.map fun route => .arr (route.map Json.str))))
  sha.hexdigest (oracle.planKeyPrefix ++ encodedRoutes)

/-- `stable_key`, with the capacity of the screening decisions. -/
def stableKey (sha : Sha256) (candidate : EVRPTWPlan) (oracle : EVRPTWOracle K) :
    Except PyExc String × EVRPTWOracle K :=
  match fetch oracle.routeScreenCacheCapacity (fun candidate => .ok (planKey sha oracle candidate)) candidate
      oracle.planKeyCache with
  | (.error error, _) => (.error error, oracle)
  | (.ok (cached, _), entries) => (.ok cached, { oracle with planKeyCache := entries })

end EVRPTWOracle

end TxnOpt.Evrptw
