/-
# Retention.Proofs.Cache.Fates -- what becomes of every value that was added

A bystander who watches a cache move by move can keep a register of all values added: each move has
one of the effects of `Effect`, and the values retained are always those that the cache holds. So
every value that was ever added is accounted for, once. Evictions are looked at one by one: which
value goes, when, and what is reported.
-/
import Retention.Proofs.Cache.Register

namespace Retention.Cache

universe u v

open Register
open Recency (latest lastUnder recentKeys)

variable {κ : Type u} {α : Type v} [BEq κ] [Hashable κ] {keyOf : α → κ} {capacity : Nat}
  {register : Register α} {c : Cache κ α}

/-! ## The cache and its register -/

/-- The cache holds the values that the register has as retained, and these are among the latest
under their keys. -/
structure Registered (keyOf : α → κ) (capacity : Nat) (c : Cache κ α) (register : Register α) :
    Prop where
  mirrors : Mirrors keyOf capacity c (register.having .retained).reverse
  latest : (register.having .retained).reverse.Sublist (latest keyOf (register.map Prod.fst))

theorem registered_create (keyOf : α → κ) (hc : 0 < capacity) :
    ∃ fresh, create capacity = .ok fresh ∧ Registered keyOf capacity fresh [] := by
  obtain ⟨fresh, hfresh, hempty⟩ := mirrors_create keyOf hc
  exact ⟨fresh, hfresh, hempty, List.nil_sublist _⟩

variable [EquivBEq κ] [LawfulHashable κ]

/-! ## Moves -/

/-- Whether a key is known decides what a bystander notes and what becomes of the register. -/
theorem Registered.exists_addsTo (h : Registered keyOf capacity c register) (x : α) :
    ∃ next, AddsTo keyOf capacity register x (note keyOf c (.add x)) next := by
  have hshows := h.mirrors.holds.shows
  cases hfound : c.peek? (keyOf x) with
  | some y =>
      have hfind := hshows.peek?_eq _ ▸ hfound
      have hkey : keyOf y == keyOf x := List.find?_some (p := (keyOf · == keyOf x)) hfind
      have hmem := List.mem_of_find?_eq_some hfind
      have hknown : c.contains (keyOf x) = true := (hshows.contains_iff _).mpr ⟨y, hmem, hkey⟩
      rw [note, hfound, hknown]
      exact exists_addsTo_of_known (List.mem_reverse.mp hmem) hkey hshows.distinct
        h.mirrors.length_le
  | none =>
      have hnew : ∀ y ∈ register.having .retained, (keyOf y == keyOf x) = false := by
        intro y hy
        have hother := List.find?_eq_none.mp (hshows.peek?_eq _ ▸ hfound) y
          (List.mem_reverse.mpr hy)
        simpa using hother
      have hunknown : ¬ c.contains (keyOf x) = true := by
        rw [hshows.contains_iff]
        rintro ⟨y, hy, hkey⟩
        rw [hnew y (List.mem_reverse.mp hy)] at hkey
        exact Bool.false_ne_true hkey
      rw [note, hfound, if_neg hunknown]
      rcases Nat.lt_or_ge (register.having .retained).length capacity with hroom | hfull
      · exact ⟨_, addsTo_of_room hnew hroom⟩
      · exact exists_addsTo_of_full hnew hfull

theorem Registered.add (h : Registered keyOf capacity c register) (x : α) :
    ∃ next, Effect keyOf capacity register (.add x)
        ((c.add keyOf x).result, note keyOf c (.add x)) next ∧
      Registered keyOf capacity (c.add keyOf x).state next := by
  obtain ⟨hnext, hresult⟩ := h.mirrors.add x
  have hlatest := Recency.add_sublist_latest h.latest capacity x
  obtain ⟨next, hadds⟩ := h.exists_addsTo x
  rw [hadds.retained] at hnext hlatest
  exact ⟨next, hresult ▸ hadds.effect, hnext, hadds.values ▸ hlatest⟩

theorem Registered.evict (h : Registered keyOf capacity c register) :
    ∃ next, Effect keyOf capacity register .evict
        ((c.evict keyOf).result, note keyOf c .evict) next ∧
      Registered keyOf capacity (c.evict keyOf).state next := by
  obtain ⟨hnext, hresult⟩ := h.mirrors.evict
  cases hline : register.having .retained with
  | nil =>
      refine ⟨register, ?_, ?_, h.latest⟩
      · rw [hresult, hline]
        exact .finds_none hline
      · rw [hline] at hnext ⊢
        exact hnext
  | cons y rest =>
      obtain ⟨before, after, rfl, hbefore, hafter⟩ :=
        exists_of_having (show _ = [] ++ y :: rest from hline)
      have hlatest := h.latest
      rw [hline, List.reverse_cons] at hnext hresult hlatest
      rw [Recency.evict, List.dropLast_concat] at hnext
      rw [Recency.evict, List.getLast?_concat] at hresult
      have hrest : Register.having .retained (before ++ (y, .evicted) :: after) = rest := by
        simp [hbefore, hafter]
      refine ⟨before ++ (y, .evicted) :: after, hresult ▸ .evicts hbefore, ?_, ?_⟩
      · rw [hrest]
        exact hnext
      · rw [hrest]
        simpa using (List.sublist_append_left _ _).trans hlatest

theorem Registered.clear (h : Registered keyOf capacity c register) :
    ∃ next, Effect keyOf capacity register .clear (none, note keyOf c .clear) next ∧
      Registered keyOf capacity c.clear next := by
  have hdropped : c.toListRev = register.having .retained :=
    h.mirrors.holds.shows.toListRev_eq.trans (List.reverse_reverse _)
  have hnone := having_retained_dropAll register
  refine ⟨register.dropAll, ?_, ?_, ?_⟩
  · rw [note, hdropped]
    exact .clears register
  · rw [hnone]
    exact h.mirrors.clear
  · rw [hnone]
    exact List.nil_sublist _

theorem Registered.perform (h : Registered keyOf capacity c register) (move : Move α) :
    ∃ next, Effect keyOf capacity register move
        ((c.perform keyOf move).result, note keyOf c move) next ∧
      Registered keyOf capacity (c.perform keyOf move).state next := by
  cases move with
  | add x => exact h.add x
  | evict => exact h.evict
  | clear => exact h.clear

/-! ## Evictions -/

section
omit [EquivBEq κ] [LawfulHashable κ]

/-- Every eviction is reported once, with the number of values left. -/
theorem events_evict (keyOf : α → κ) (c : Cache κ α) :
    (c.evict keyOf).events = (c.evict keyOf).result.toList.map
      fun _ => .entryEvicted (c.evict keyOf).state.size c.capacity := by
  rw [Cache.evict]
  split <;> rfl

theorem events_perform (keyOf : α → κ) (c : Cache κ α) (move : Move α) :
    (c.perform keyOf move).events = (c.perform keyOf move).result.toList.map
      fun _ => .entryEvicted (c.perform keyOf move).state.size c.capacity := by
  cases move with
  | add x =>
      rw [perform, Cache.add]
      split
      · rfl
      · dsimp only
        split
        · exact events_evict keyOf (c.enter keyOf x)
        · rfl
  | evict => exact events_evict keyOf c
  | clear => rfl

end

/-- What a move of a cache reports, after a history of additions. -/
structure Reported (keyOf : α → κ) (history : List α) (c : Cache κ α) (move : Move α)
    (done : Step (Cache κ α) (Option α)) : Prop where
  /-- A value is evicted on demand if there is one, and for a newcomer if there is no room. -/
  evicts_iff : done.result.isSome = true ↔ move = .evict ∧ c.size ≠ 0 ∨
    ∃ x, move = .add x ∧ c.contains (keyOf x) = false ∧ c.size = c.capacity
  /-- For an evicted value, and for nothing else, there is one diagnostic. -/
  events_eq : done.events =
    done.result.toList.map fun _ => .entryEvicted done.state.size c.capacity
  /-- The evicted value was the last in the cache, -/
  at_back : ∀ y, done.result = some y → move.added ++ c.toList = done.state.toList ++ [y]
  /-- where the keys stand in the order of their last additions, -/
  by_recency : done.result.isSome = true →
    ((move.added ++ c.toList).map keyOf).Sublist (recentKeys keyOf (history ++ move.added))
  /-- and it was the last one added under its key. -/
  last_value : ∀ y, done.result = some y →
    lastUnder keyOf (history ++ move.added) (keyOf y) = some y

theorem Registered.reported (h : Registered keyOf capacity c register) (move : Move α) :
    Reported keyOf (register.map Prod.fst) c move (c.perform keyOf move) := by
  obtain ⟨next, heffect, hnext⟩ := h.perform move
  have hshows := h.mirrors.holds.shows
  have hsize : c.size = (register.having .retained).length := by
    rw [hshows.size_eq, List.length_reverse]
  have hlatest := fun hsome => hshows.toList_eq ▸ heffect.latest h.latest hsome
  have hback : ∀ y, (c.perform keyOf move).result = some y →
      move.added ++ c.toList = (c.perform keyOf move).state.toList ++ [y] := by
    intro y hy
    have hline := congrArg List.reverse (heffect.line hy)
    rw [hshows.toList_eq, hnext.mirrors.holds.shows.toList_eq, ← List.reverse_cons, ← hline,
      List.reverse_append]
    cases move <;> rfl
  refine ⟨heffect.isSome_iff.trans ?_, events_perform keyOf c move, hback, ?_, ?_⟩
  · refine or_congr (and_congr_right fun _ => ?_)
      (exists_congr fun x => and_congr_right fun _ => ?_)
    · rw [hsize, Ne, Ne, List.length_eq_zero_iff]
    · refine and_congr ?_ ?_
      · rw [← Bool.not_eq_true, hshows.contains_iff]
        simp
      · have := h.mirrors.length_le
        rw [hsize, h.mirrors.capacity_eq]
        rw [List.length_reverse] at this
        omega
  · intro hsome
    rw [← Recency.map_keyOf_latest]
    exact (hlatest hsome).map keyOf
  · intro y hy
    refine Recency.lastUnder_of_mem_latest ((hlatest (hy ▸ rfl)).subset ?_)
    rw [hback y hy]
    simp

/-! ## Runs -/

/-- In every run of a cache each value that is added has one fate. A bystander who watches the run
move by move can keep a register of all values added, in this order, in which every move has its
effect and nothing else changes: those retained in the end are what the cache holds, those evicted
are the values handed out as such, one after the other, and those overwritten or dropped are the
ones seen in the cache just before that. So the values added while their key was not known are as
many as those in the cache, those evicted and those dropped. And for every further move, a value is
evicted exactly if it is wanted or if there is no room for a newcomer; it is the one whose key was
added least recently, and the last one added under that key; and it is handed out once and reported
by one diagnostic with the number of values left. -/
theorem run_settles_every_value (keyOf : α → κ) {capacity : Nat} (hc : 0 < capacity)
    (requests : List (Request κ α)) :
    ∃ fresh, create capacity = .ok fresh ∧
      let served := Step.forEach (serve keyOf) fresh requests
      let c := served.state
      let history := requests.flatMap Request.added
      let evicted := served.result.flatMap Response.evicted
      let moves := requests.flatMap Request.moves
      let watched := Step.forEach (watch keyOf) fresh moves
      let notes := watched.result.map Prod.snd
      (watched.state = c ∧ watched.result.flatMap (·.1.toList) = evicted ∧
          watched.events = served.events) ∧
        (∃ register : Register α,
          Step.Follows (Effect keyOf capacity) [] (Step.transcript (watch keyOf) fresh moves)
              register ∧
            register.map Prod.fst = history ∧
            register.having .retained = c.toListRev ∧
            register.having .evicted = evicted ∧
            register.having .dropped = notes.flatMap Note.dropped ∧
            (register.having .overwritten).Perm (notes.flatMap Note.overwritten)) ∧
        (notes.flatMap Note.newcomers).length =
          c.size + evicted.length + (notes.flatMap Note.dropped).length ∧
        c.capacity = capacity ∧ ∀ move, Reported keyOf history c move (c.perform keyOf move) := by
  obtain ⟨fresh, hfresh, hempty⟩ := registered_create keyOf hc
  have hstep : ∀ (c : Cache κ α) register move, Registered keyOf capacity c register →
      ∃ next, Effect keyOf capacity register move (watch keyOf c move).result next ∧
        Registered keyOf capacity (watch keyOf c move).state next :=
    fun _ _ move h => h.perform move
  obtain ⟨register, hfollows, hlast⟩ :=
    Step.forEach_follows hstep hempty (requests.flatMap Request.moves)
  have hwatched := watch_eq_serve keyOf fresh requests
  rw [hwatched.1] at hlast
  have hshows := hlast.mirrors.holds.shows
  -- All that the register says was seen on the way.
  obtain ⟨hadded, hevicted, hdropped, hover, hknown⟩ := accounts_of_follows hfollows .nil
  rw [Step.map_fst_transcript, flatMap_added_moves] at hadded hknown
  rw [List.map_nil, List.nil_append] at hadded
  rw [Step.map_snd_transcript] at hevicted hdropped hover hknown
  rw [hwatched.2.1] at hevicted
  refine ⟨fresh, hfresh, hwatched, ⟨register, hfollows, hadded, ?_, hevicted, hdropped, hover⟩, ?_,
    hlast.mirrors.capacity_eq, fun move => ?_⟩
  · rw [hshows.toListRev_eq, List.reverse_reverse]
  · -- What was added under a key that was known overwrote one value each.
    have hfates := register.length_eq_having
    have hlength := congrArg List.length hadded
    have hovers := hover.length_eq
    rw [List.length_map] at hlength
    rw [having_nil, List.nil_append] at hevicted hdropped hovers
    rw [← hdropped, ← hevicted, hshows.size_eq, List.length_reverse]
    omega
  · exact hadded ▸ hlast.reported move

/-- Room for two. Key 1 is overwritten while it is there, so key 2 is evicted for key 3; then key 1
is evicted on demand and comes back as a newcomer, and all is dropped before key 2 comes back. -/
theorem run_settles_every_value_mixed :
    0 < 2 ∧ ∃ fresh : Cache Nat (Nat × Nat), create 2 = .ok fresh ∧
      let requests : List (Request Nat (Nat × Nat)) :=
        [.addAll [(1, 10), (2, 20), (1, 11)], .add (3, 30), .evict, .add (1, 12), .clear,
          .add (2, 21)]
      (Step.forEach (serve Prod.fst) fresh requests).result.flatMap Response.evicted =
          [(2, 20), (1, 11)] ∧
        ∃ register : Register (Nat × Nat),
          register.map Prod.fst = [(1, 10), (2, 20), (1, 11), (3, 30), (1, 12), (2, 21)] ∧
            register.having .retained = [(2, 21)] ∧
            register.having .evicted = [(2, 20), (1, 11)] ∧
            register.having .dropped = [(3, 30), (1, 12)] ∧
            (register.having .overwritten).Perm [(1, 10)] := by
  obtain ⟨fresh, hfresh, -, ⟨register, -, hvalues, hretained, hout, hdropped, hover⟩, -⟩ :=
    run_settles_every_value (Prod.fst : Nat × Nat → Nat) (show 0 < 2 by decide)
      [.addAll [(1, 10), (2, 20), (1, 11)], .add (3, 30), .evict, .add (1, 12), .clear,
        .add (2, 21)]
  refine ⟨by decide, fresh, hfresh, ?_⟩
  obtain rfl : ({ capacity := 2 } : Cache Nat (Nat × Nat)) = fresh := Except.ok.inj hfresh
  have hevicted : (Step.forEach (serve Prod.fst) ({ capacity := 2 } : Cache Nat (Nat × Nat))
      [.addAll [(1, 10), (2, 20), (1, 11)], .add (3, 30), .evict, .add (1, 12), .clear,
        .add (2, 21)]).result.flatMap Response.evicted = [(2, 20), (1, 11)] := by
    cbv
  refine ⟨hevicted, register, hvalues, hretained.trans ?_, hout.trans hevicted,
    hdropped.trans ?_, hover.trans (.of_eq ?_)⟩
  · cbv
  · cbv
  · cbv

end Retention.Cache
