import Mathlib.Data.List.Dedup

/-!
# Least recently used

A cache in an ordered dictionary: a key that is found moves to the end, a key that is not found is computed and
added at the end, and the first entry goes when there are too many.
-/

namespace TxnOpt

variable {κ ν ε : Type} [DecidableEq κ]

/-- The entries in the order of their insertion. -/
abbrev OrderedDict (κ ν : Type) := List (κ × ν)

namespace OrderedDict

def keys (dict : OrderedDict κ ν) : List κ := dict.map Prod.fst

/-- The value of a key, and the other entries. -/
def pop (key : κ) : OrderedDict κ ν → Option (ν × OrderedDict κ ν)
  | [] => none
  | entry :: dict =>
      if entry.1 = key then some (entry.2, dict)
      else (pop key dict).map fun (value, others) => (value, entry :: others)

/-- `dict[key] = value`. -/
def set (key : κ) (value : ν) : OrderedDict κ ν → OrderedDict κ ν
  | [] => [(key, value)]
  | entry :: dict => if entry.1 = key then (key, value) :: dict else entry :: set key value dict

omit [DecidableEq κ] in
theorem keys_append (first second : OrderedDict κ ν) : keys (first ++ second) = keys first ++ keys second :=
  List.map_append

theorem pop_eq_none_iff {key : κ} {dict : OrderedDict κ ν} : dict.pop key = none ↔ key ∉ dict.keys := by
  induction dict with
  | nil => simp [pop, keys]
  | cons entry dict ih =>
      rw [pop, keys, List.map_cons, List.mem_cons, not_or]
      by_cases hkey : entry.1 = key
      · simp [hkey]
      · rw [if_neg hkey, Option.map_eq_none_iff, ih]
        exact ⟨fun h => ⟨fun heq => hkey heq.symm, h⟩, fun h => h.2⟩

theorem pop_eq_some {key : κ} {dict others : OrderedDict κ ν} {value : ν} (h : dict.pop key = some (value, others)) :
    (key, value) ∈ dict ∧ others.keys = dict.keys.erase key ∧ ∀ entry ∈ others, entry ∈ dict := by
  induction dict generalizing others with
  | nil => cases h
  | cons entry dict ih =>
      rw [pop] at h
      by_cases hkey : entry.1 = key
      · rw [if_pos hkey, Option.some.injEq, Prod.mk.injEq] at h
        rw [← h.1, ← h.2, ← hkey, keys, keys, List.map_cons, List.erase_cons_head]
        exact ⟨List.mem_cons_self, rfl, fun other hother => List.mem_cons_of_mem entry hother⟩
      · rw [if_neg hkey] at h
        obtain ⟨⟨found, rest⟩, hpop, heq⟩ := Option.map_eq_some_iff.mp h
        rw [Prod.mk.injEq] at heq
        rw [heq.1] at hpop
        obtain ⟨hmem, hkeys, hsubset⟩ := ih hpop
        rw [← heq.2]
        refine ⟨List.mem_cons_of_mem entry hmem, ?_, ?_⟩
        · rw [keys, keys, List.map_cons, List.map_cons, List.erase_cons_tail (by simpa using hkey)]
          exact congrArg (entry.1 :: ·) hkeys
        · intro other hother
          rcases List.mem_cons.mp hother with hhead | htail
          · rw [hhead]
            exact List.mem_cons_self
          · exact List.mem_cons_of_mem entry (hsubset other htail)

theorem set_of_not_mem {key : κ} {dict : OrderedDict κ ν} (h : key ∉ dict.keys) (value : ν) :
    dict.set key value = dict ++ [(key, value)] := by
  induction dict with
  | nil => rfl
  | cons entry dict ih =>
      rw [keys, List.map_cons, List.mem_cons, not_or] at h
      rw [set, if_neg (fun heq => h.1 heq.symm), ih h.2]
      rfl

theorem lookup_set (key other : κ) (value : ν) (dict : OrderedDict κ ν) :
    List.lookup other (dict.set key value) = if other = key then some value else List.lookup other dict := by
  induction dict with
  | nil =>
      rw [OrderedDict.set, List.lookup_cons, List.lookup_nil]
      by_cases hkey : other = key
      · simp [hkey]
      · simp [beq_false_of_ne hkey, hkey]
  | cons entry dict ih =>
      rw [OrderedDict.set]
      by_cases hentry : entry.1 = key
      · rw [if_pos hentry, List.lookup_cons, List.lookup_cons, hentry]
        by_cases hkey : other = key
        · simp [hkey]
        · simp [beq_false_of_ne hkey, hkey]
      · rw [if_neg hentry, List.lookup_cons, List.lookup_cons, ih]
        by_cases hother : other = entry.1
        · simp only [hother, beq_self_eq_true, if_neg hentry]
        · rw [beq_false_of_ne hother]

theorem mem_set {key : κ} {value : ν} {dict : OrderedDict κ ν} {entry : κ × ν}
    (h : entry ∈ dict.set key value) : entry ∈ dict ∨ entry = (key, value) := by
  induction dict with
  | nil => exact .inr (List.mem_singleton.mp h)
  | cons first dict ih =>
      rw [OrderedDict.set] at h
      by_cases hfirst : first.1 = key
      · rw [if_pos hfirst] at h
        rcases List.mem_cons.mp h with heq | hlater
        · exact .inr heq
        · exact .inl (List.mem_cons_of_mem first hlater)
      · rw [if_neg hfirst] at h
        rcases List.mem_cons.mp h with heq | hlater
        · rw [heq]
          exact .inl List.mem_cons_self
        · rcases ih hlater with hold | hnew
          · exact .inl (List.mem_cons_of_mem first hold)
          · exact .inr hnew

end OrderedDict

/-! ### One call -/

/-- What a call did to the entries. -/
inductive Use where
  /-- the key was found -/
  | hit
  /-- the key was added -/
  | miss
  /-- the key was added, and the first entry went -/
  | eviction
  deriving DecidableEq, Repr

variable (capacity : ℕ) (compute : κ → Except ε ν)

/-- The value of a key, from the entries or else computed. -/
def fetch (key : κ) (entries : OrderedDict κ ν) : Except ε (ν × Use) × OrderedDict κ ν :=
  match entries.pop key with
  | some (value, others) => (.ok (value, .hit), others.set key value)
  | none =>
      match compute key with
      | .error error => (.error error, entries)
      | .ok value =>
          if capacity < (entries.set key value).length then (.ok (value, .eviction), (entries.set key value).tail)
          else (.ok (value, .miss), entries.set key value)

structure Counters where
  hits : ℕ
  misses : ℕ
  evictions : ℕ
  deriving DecidableEq, Repr

namespace Counters

def zero : Counters := ⟨0, 0, 0⟩

def count (counters : Counters) : Use → Counters
  | .hit => { counters with hits := counters.hits + 1 }
  | .miss => { counters with misses := counters.misses + 1 }
  | .eviction => { counters with misses := counters.misses + 1, evictions := counters.evictions + 1 }

/-- The counters after these many calls. -/
structure Exact (counters : Counters) (calls size : ℕ) : Prop where
  calls : counters.hits + counters.misses = calls
  size : counters.evictions + size = counters.misses

variable {counters : Counters} {calls size : ℕ}

theorem Exact.hit (h : counters.Exact calls size) : (counters.count .hit).Exact (calls + 1) size where
  calls := by
    dsimp only [count]
    rw [← h.calls]
    omega
  size := h.size

theorem Exact.miss (h : counters.Exact calls size) : (counters.count .miss).Exact (calls + 1) (size + 1) where
  calls := by
    dsimp only [count]
    rw [← h.calls, Nat.add_assoc]
  size := by
    dsimp only [count]
    rw [← h.size, Nat.add_assoc]

theorem Exact.eviction (h : counters.Exact calls size) : (counters.count .eviction).Exact (calls + 1) size where
  calls := by
    dsimp only [count]
    rw [← h.calls, Nat.add_assoc]
  size := by
    dsimp only [count]
    rw [← h.size]
    omega

end Counters

/-! ### The keys in the order of their last use -/

theorem dedup_snoc (keys : List κ) (key : κ) : (keys ++ [key]).dedup = keys.dedup.erase key ++ [key] := by
  induction keys with
  | nil => rfl
  | cons first keys ih =>
      rw [List.cons_append]
      by_cases hfirst : first ∈ keys
      · rw [List.dedup_cons_of_mem hfirst, List.dedup_cons_of_mem (List.mem_append_left _ hfirst), ih]
      · rw [List.dedup_cons_of_notMem hfirst]
        by_cases hkey : first = key
        · rw [hkey] at hfirst ⊢
          rw [List.dedup_cons_of_mem (List.mem_append_right _ (List.mem_singleton.mpr rfl)), ih,
            List.erase_cons_head, List.erase_of_not_mem (by rwa [List.mem_dedup])]
        · have hlater : first ∉ keys ++ [key] := by
            rw [List.mem_append, List.mem_singleton, not_or]
            exact ⟨hfirst, hkey⟩
          rw [List.dedup_cons_of_notMem hlater, ih, List.erase_cons_tail (by simpa using hkey)]
          rfl

/-- The entries are those of the last distinct keys that were used, as many as fit, in the order of use. -/
structure Holds (used : List κ) (entries : OrderedDict κ ν) : Prop where
  recent : entries.keys <:+ used.dedup
  size : entries.length = min capacity used.dedup.length
  values : ∀ entry ∈ entries, compute entry.1 = .ok entry.2

variable {capacity compute} {used : List κ} {entries : OrderedDict κ ν}

theorem holds_nil : Holds capacity compute [] ([] : OrderedDict κ ν) where
  recent := List.nil_suffix
  size := (Nat.min_zero capacity).symm
  values := fun _ h => absurd h List.not_mem_nil

/-- The keys that were used and are not held. -/
theorem Holds.forgotten (h : Holds capacity compute used entries) :
    ∃ forgotten, used.dedup = forgotten ++ entries.keys ∧ (forgotten = [] ∨ entries.length = capacity) := by
  obtain ⟨forgotten, hforgotten⟩ := h.recent
  refine ⟨forgotten, hforgotten.symm, ?_⟩
  have hsize := h.size
  have hlength := congrArg List.length hforgotten
  rw [List.length_append, OrderedDict.keys, List.length_map] at hlength
  by_cases hfull : entries.length = capacity
  · exact .inr hfull
  · left
    apply List.length_eq_zero_iff.mp
    omega

theorem Holds.of_forgotten (forgotten : List κ) (hused : used.dedup = forgotten ++ entries.keys)
    (hle : entries.length ≤ capacity) (hfull : forgotten = [] ∨ entries.length = capacity)
    (hvalues : ∀ entry ∈ entries, compute entry.1 = .ok entry.2) : Holds capacity compute used entries where
  recent := ⟨forgotten, hused.symm⟩
  size := by
    rw [hused, List.length_append, OrderedDict.keys, List.length_map]
    rcases hfull with hnil | hlength
    · rw [hnil, List.length_nil]
      omega
    · omega
  values := hvalues

theorem Holds.length_le (h : Holds capacity compute used entries) : entries.length ≤ capacity := by
  rw [h.size]
  exact Nat.min_le_left _ _

/-! ### The invariant -/

theorem fetch_error {key : κ} {error : ε} {after : OrderedDict κ ν}
    (h : fetch capacity compute key entries = (.error error, after)) :
    compute key = .error error ∧ after = entries := by
  rw [fetch] at h
  split at h
  · cases h
  · split at h
    · rename_i failure hfailure
      rw [Prod.mk.injEq, Except.error.injEq] at h
      rw [← h.1, ← h.2]
      exact ⟨hfailure, rfl⟩
    · split at h <;> cases h

theorem Holds.keys_nodup (h : Holds capacity compute used entries) : entries.keys.Nodup :=
  (List.nodup_dedup used).sublist h.recent.sublist

theorem Holds.not_mem_others (h : Holds capacity compute used entries) {key : κ} {value : ν}
    {others : OrderedDict κ ν} (hpop : entries.pop key = some (value, others)) : key ∉ others.keys := by
  rw [(OrderedDict.pop_eq_some hpop).2.1]
  exact h.keys_nodup.not_mem_erase

/-- A key that is found moves to the end. -/
theorem Holds.hit (h : Holds capacity compute used entries) {key : κ} {value : ν} {others : OrderedDict κ ν}
    (hpop : entries.pop key = some (value, others)) :
    compute key = .ok value ∧ Holds capacity compute (used ++ [key]) (others ++ [(key, value)]) ∧
      (others ++ [(key, value)]).length = entries.length := by
  obtain ⟨hmem, hkeys, hsubset⟩ := OrderedDict.pop_eq_some hpop
  obtain ⟨forgotten, hused, hfull⟩ := h.forgotten
  have hkey : key ∈ entries.keys := List.mem_map_of_mem hmem
  have hlength : (others ++ [(key, value)]).length = entries.length := by
    have hothers := congrArg List.length hkeys
    have hpos := List.length_pos_of_mem hkey
    rw [List.length_erase_of_mem hkey, OrderedDict.keys, OrderedDict.keys, List.length_map, List.length_map] at hothers
    rw [OrderedDict.keys, List.length_map] at hpos
    rw [List.length_append, List.length_singleton]
    omega
  have hnew : key ∉ forgotten := by
    intro hforgotten
    have hnodup := List.nodup_dedup used
    rw [hused, List.nodup_append] at hnodup
    exact hnodup.2.2 key hforgotten key hkey rfl
  refine ⟨h.values _ hmem, ?_, hlength⟩
  apply Holds.of_forgotten forgotten
  · rw [dedup_snoc, hused, List.erase_append_right _ hnew, OrderedDict.keys_append, hkeys, List.append_assoc]
    rfl
  · rw [hlength]
    exact h.length_le
  · rw [hlength]
    exact hfull
  · intro entry hentry
    rcases List.mem_append.mp hentry with hold | hlast
    · exact h.values entry (hsubset entry hold)
    · rw [List.mem_singleton.mp hlast]
      exact h.values _ hmem

theorem Holds.used_miss {forgotten : List κ} (hused : used.dedup = forgotten ++ entries.keys) {key : κ}
    (hkey : key ∉ entries.keys) : (used ++ [key]).dedup = forgotten.erase key ++ (entries.keys ++ [key]) := by
  rw [dedup_snoc, hused, List.erase_append]
  by_cases hforgotten : key ∈ forgotten
  · rw [if_pos hforgotten, List.append_assoc]
  · rw [if_neg hforgotten, List.erase_of_not_mem hkey, List.erase_of_not_mem hforgotten, List.append_assoc]

/-- A key that is computed is added at the end, -/
theorem Holds.miss (h : Holds capacity compute used entries) {key : κ} {value : ν} (hkey : key ∉ entries.keys)
    (hvalue : compute key = .ok value) (hroom : entries.length < capacity) :
    Holds capacity compute (used ++ [key]) (entries ++ [(key, value)]) := by
  obtain ⟨forgotten, hused, hfull⟩ := h.forgotten
  have hnil : forgotten = [] := by
    rcases hfull with hnil | hlength
    · exact hnil
    · omega
  rw [hnil] at hused
  apply Holds.of_forgotten []
  · rw [Holds.used_miss hused hkey, OrderedDict.keys_append]
    rfl
  · rw [List.length_append, List.length_singleton]
    omega
  · exact .inl rfl
  · intro entry hentry
    rcases List.mem_append.mp hentry with hold | hlast
    · exact h.values entry hold
    · rw [List.mem_singleton.mp hlast]
      exact hvalue

/-- and the first entry goes when there is no room. -/
theorem Holds.eviction (h : Holds capacity compute used entries) {key : κ} {value : ν} (hkey : key ∉ entries.keys)
    (hvalue : compute key = .ok value) (hcapacity : 0 < capacity) (hfull : entries.length = capacity) :
    Holds capacity compute (used ++ [key]) (entries ++ [(key, value)]).tail ∧
      (entries ++ [(key, value)]).tail.length = entries.length := by
  obtain ⟨forgotten, hused, -⟩ := h.forgotten
  cases entries with
  | nil =>
      rw [List.length_nil] at hfull
      omega
  | cons first entries =>
      have hlength : ((first :: entries) ++ [(key, value)]).tail.length = (first :: entries).length := by
        rw [List.cons_append, List.tail_cons, List.length_append, List.length_singleton, List.length_cons]
      refine ⟨?_, hlength⟩
      apply Holds.of_forgotten (forgotten.erase key ++ [first.1])
      · rw [Holds.used_miss hused hkey, List.cons_append, List.tail_cons, OrderedDict.keys_append, List.append_assoc]
        rfl
      · rw [hlength]
        exact h.length_le
      · rw [hlength]
        exact .inr hfull
      · intro entry hentry
        rcases List.mem_append.mp hentry with hold | hlast
        · exact h.values entry (List.mem_cons_of_mem first hold)
        · rw [List.mem_singleton.mp hlast]
          exact hvalue

/-- A call that returns returns what is computed, and its key is the last one that was used. -/
theorem Holds.fetch (hcapacity : 0 < capacity) (h : Holds capacity compute used entries) {key : κ} {value : ν}
    {use : Use} {after : OrderedDict κ ν} (hfetch : fetch capacity compute key entries = (.ok (value, use), after)) :
    compute key = .ok value ∧ Holds capacity compute (used ++ [key]) after ∧
      ∀ {counters : Counters}, counters.Exact used.length entries.length →
        (counters.count use).Exact (used ++ [key]).length after.length := by
  rw [TxnOpt.fetch] at hfetch
  cases hpop : entries.pop key with
  | some found =>
      obtain ⟨stored, others⟩ := found
      simp only [hpop, Prod.mk.injEq, Except.ok.injEq] at hfetch
      obtain ⟨⟨hstored, huse⟩, hafter⟩ := hfetch
      rw [OrderedDict.set_of_not_mem (h.not_mem_others hpop)] at hafter
      obtain ⟨hvalue, hholds, hlength⟩ := h.hit hpop
      rw [← hstored, ← huse, ← hafter]
      refine ⟨hvalue, hholds, ?_⟩
      intro counters hcounters
      rw [hlength, List.length_append, List.length_singleton]
      exact hcounters.hit
  | none =>
      have hkey := OrderedDict.pop_eq_none_iff.mp hpop
      cases hcompute : compute key with
      | error error =>
          simp only [hpop, hcompute, Prod.mk.injEq] at hfetch
          cases hfetch.1
      | ok computed =>
          simp only [hpop, hcompute, OrderedDict.set_of_not_mem hkey] at hfetch
          have hle := h.length_le
          have hlength : (entries ++ [(key, computed)]).length = entries.length + 1 := by
            rw [List.length_append, List.length_singleton]
          by_cases hroom : capacity < (entries ++ [(key, computed)]).length
          · rw [if_pos hroom, Prod.mk.injEq, Except.ok.injEq, Prod.mk.injEq] at hfetch
            obtain ⟨⟨hvalue, huse⟩, hafter⟩ := hfetch
            obtain ⟨hholds, htail⟩ := h.eviction hkey hcompute hcapacity (by omega)
            rw [← hvalue, ← huse, ← hafter]
            refine ⟨rfl, hholds, ?_⟩
            intro counters hcounters
            rw [htail, List.length_append, List.length_singleton]
            exact hcounters.eviction
          · rw [if_neg hroom, Prod.mk.injEq, Except.ok.injEq, Prod.mk.injEq] at hfetch
            obtain ⟨⟨hvalue, huse⟩, hafter⟩ := hfetch
            rw [← hvalue, ← huse, ← hafter]
            refine ⟨rfl, h.miss hkey hcompute (by omega), ?_⟩
            intro counters hcounters
            rw [hlength, List.length_append, List.length_singleton]
            exact hcounters.miss

/-! ### A sequence of calls -/

/-- What the calls return, and the state after them. -/
def answers {σ ρ : Type} (call : κ → σ → ρ × σ) : List κ → σ → List ρ × σ
  | [], state => ([], state)
  | key :: keys, state =>
      ((call key state).1 :: (answers call keys (call key state).2).1, (answers call keys (call key state).2).2)

omit [DecidableEq κ] in
/-- What one call preserves of the calls so far holds of all calls. -/
theorem answers_invariant {σ ρ : Type} {call : κ → σ → ρ × σ} {expected : κ → ρ} {Invariant : List κ → σ → Prop}
    (hcall : ∀ past key state, Invariant past state →
      (call key state).1 = expected key ∧ Invariant (past ++ [key]) (call key state).2)
    {past : List κ} {state : σ} (h : Invariant past state) (keys : List κ) :
    (answers call keys state).1 = keys.map expected ∧ Invariant (past ++ keys) (answers call keys state).2 := by
  induction keys generalizing past state with
  | nil =>
      rw [List.append_nil]
      exact ⟨rfl, h⟩
  | cons key keys ih =>
      obtain ⟨hfirst, hnext⟩ := hcall past key state h
      obtain ⟨hrest, hlast⟩ := ih hnext
      rw [List.append_cons]
      exact ⟨by rw [answers, hfirst, hrest, List.map_cons], hlast⟩

end TxnOpt
