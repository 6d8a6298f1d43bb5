/-
# Retention.Proofs.Cache.History -- what a cache shows of all that was added to it

A history is the list of all values added so far, in this order and with any repetition of keys.
`recentKeys` and `lastUnder` read off it which keys were added last and which value was the last
under a key. As long as nothing is evicted on demand and nothing is cleared, a cache shows exactly
the value added last under each of the most recent keys, as many as it has room for. So what a small
cache shows is where a larger one begins.

The link between the two is `latest`, the list that a cache without any limit would hold. It does
not lose the order of the last additions, and cutting it at the capacity commutes with adding.
-/
import Mathlib
import Retention.Proofs.Cache.Recency
import Retention.Proofs.Visitor

namespace Retention

universe u v w

variable {κ : Type u} {α : Type v}

namespace Cache

/-- The values that a request adds, in order. -/
def Request.added : Request κ α → List α
  | .add x => [x]
  | .addAll xs => xs
  | .evict | .clear | .peek _ | .contains _ => []

/-- The request takes values out without a new one coming in. -/
def Request.takesOut : Request κ α → Bool
  | .evict | .clear => true
  | .add _ | .addAll _ | .peek _ | .contains _ => false

end Cache

namespace Recency

open Cache (Request)

variable [BEq κ]

/-! ## Histories -/

/-- The distinct keys of a history, the one added last in front. -/
def recentKeys (keyOf : α → κ) (history : List α) : List κ :=
  (history.map keyOf).reverse.eraseDups

/-- The value added last under a key. -/
def lastUnder (keyOf : α → κ) (history : List α) (k : κ) : Option α :=
  (history.filter (keyOf · == k)).getLast?

/-- The values that would be held if there were room for all keys. -/
def latest (keyOf : α → κ) (history : List α) : List α :=
  history.foldl (fun xs x => x :: xs.eraseP fun y => keyOf y == keyOf x) []

variable {keyOf : α → κ} {history xs : List α} {x : α} {k : κ}

theorem latest_concat : latest keyOf (history ++ [x]) =
    x :: (latest keyOf history).eraseP fun y => keyOf y == keyOf x := by
  rw [latest, List.foldl_concat]
  rfl

theorem lastUnder_concat : lastUnder keyOf (history ++ [x]) k =
    if keyOf x == k then some x else lastUnder keyOf history k := by
  rw [lastUnder, List.filter_append]
  split
  · next hk =>
    rw [List.filter_cons_of_pos (p := (keyOf · == k)) hk, List.filter_nil, List.getLast?_concat]
  · next hk =>
    rw [List.filter_cons_of_neg (p := (keyOf · == k)) hk, List.filter_nil, List.append_nil]
    rfl

/-! ## Lists of limited length -/

/-- An addition keeps as much of the list without limit as there is room for. -/
theorem state_add {capacity : Nat} (hsize : xs.length ≤ capacity) :
    (add keyOf capacity xs x).state =
      (x :: xs.eraseP fun y => keyOf y == keyOf x).take capacity := by
  have hle : (xs.eraseP fun y => keyOf y == keyOf x).length ≤ capacity :=
    Nat.le_trans List.length_eraseP_le hsize
  rw [add]
  generalize xs.eraseP _ = ys at hle
  split
  · next hfull =>
    have hlength : (x :: ys).length - 1 = capacity := by
      rw [List.length_cons] at hfull ⊢
      omega
    rw [← hlength]
    exact List.dropLast_eq_take
  · next hroom => exact (List.take_of_length_le (Nat.le_of_not_lt hroom)).symm

/-- Values in the order of their last additions stay so when another one is added. -/
theorem cons_eraseP_sublist_latest (h : xs.Sublist (latest keyOf history)) (x : α) :
    (x :: xs.eraseP fun y => keyOf y == keyOf x).Sublist (latest keyOf (history ++ [x])) := by
  rw [latest_concat]
  exact h.eraseP.cons_cons x

theorem add_sublist_latest (h : xs.Sublist (latest keyOf history)) (capacity : Nat) (x : α) :
    (add keyOf capacity xs x).state.Sublist (latest keyOf (history ++ [x])) := by
  have hall := cons_eraseP_sublist_latest h x
  rw [add]
  split
  · exact (List.dropLast_sublist _).trans hall
  · exact hall

/-- What is erased beyond the first `n + 1` values does not show among the first `n`. -/
theorem take_eraseP (p : α → Bool) (xs : List α) (n : Nat) :
    ((xs.take (n + 1)).eraseP p).take n = (xs.eraseP p).take n := by
  induction xs generalizing n with
  | nil => rfl
  | cons x xs ih =>
      rw [List.take_succ_cons]
      by_cases hx : p x = true
      · rw [List.eraseP_cons_of_pos hx, List.eraseP_cons_of_pos hx, List.take_take, Nat.min_self]
      · rw [List.eraseP_cons_of_neg hx, List.eraseP_cons_of_neg hx]
        cases n with
        | zero => rfl
        | succ n => rw [List.take_succ_cons, List.take_succ_cons, ih]

/-- Adding to what there is room for gives what there is room for after adding. -/
theorem add_take_latest {capacity : Nat} (hc : 0 < capacity) (history : List α) (x : α) :
    (add keyOf capacity ((latest keyOf history).take capacity) x).state =
      (latest keyOf (history ++ [x])).take capacity := by
  obtain ⟨n, rfl⟩ := Nat.exists_eq_succ_of_ne_zero (Nat.ne_of_gt hc)
  rw [state_add (List.length_take_le _ _), latest_concat, List.take_succ_cons, List.take_succ_cons,
    take_eraseP]

theorem forEach_add_take_latest {capacity : Nat} (hc : 0 < capacity) (history ys : List α) :
    (Step.forEach (add keyOf capacity) ((latest keyOf history).take capacity) ys).state =
      (latest keyOf (history ++ ys)).take capacity := by
  induction ys generalizing history with
  | nil => rw [List.append_nil]; rfl
  | cons y ys ih =>
      rw [Step.forEach_cons, add_take_latest hc, ih, List.append_assoc]
      rfl

theorem serve_take_latest {capacity : Nat} (hc : 0 < capacity) (history : List α)
    {request : Request κ α} (hin : request.takesOut = false) :
    (serve keyOf capacity ((latest keyOf history).take capacity) request).state =
      (latest keyOf (history ++ request.added)).take capacity := by
  cases request with
  | add x => exact add_take_latest hc history x
  | addAll ys => exact forEach_add_take_latest hc history ys
  | evict => exact absurd hin Bool.true_eq_false.mp
  | clear => exact absurd hin Bool.true_eq_false.mp
  | peek k => rw [Request.added, List.append_nil]; rfl
  | contains k => rw [Request.added, List.append_nil]; rfl

/-- Over a run that takes nothing out, a list of limited length is always the beginning of the list
without limit. -/
theorem run_take_latest (keyOf : α → κ) {capacity : Nat} (hc : 0 < capacity) (history : List α)
    (requests : List (Request κ α)) (hin : ∀ r ∈ requests, r.takesOut = false) :
    (Step.forEach (serve keyOf capacity) ((latest keyOf history).take capacity) requests).state =
      (latest keyOf (history ++ requests.flatMap Request.added)).take capacity := by
  induction requests generalizing history with
  | nil => rw [List.flatMap_nil, List.append_nil]; rfl
  | cons r rest ih =>
      obtain ⟨hr, hrest⟩ := List.forall_mem_cons.mp hin
      rw [Step.forEach_cons, serve_take_latest hc history hr, ih _ hrest, List.flatMap_cons,
        List.append_assoc]

/-! ## Keys and values -/

/-- Erasing the duplicates of a list and keeping only some classes can change places. -/
theorem eraseDups_filter {p : κ → Bool} (hp : ∀ a b, a == b → p a = p b) :
    ∀ ks : List κ, (ks.filter p).eraseDups = ks.eraseDups.filter p
  | [] => rfl
  | k :: ks => by
      have hrest := eraseDups_filter hp (ks.filter fun l => !l == k)
      rw [List.eraseDups_cons]
      by_cases hk : p k = true
      · rw [List.filter_cons_of_pos hk, List.eraseDups_cons, List.filter_cons_of_pos hk, ← hrest,
          List.filter_filter, List.filter_filter]
        simp only [Bool.and_comm]
      · -- The keys equal to one that is left out are left out as well.
        have hout : (ks.filter fun l => !l == k).filter p = ks.filter p := by
          rw [List.filter_filter]
          refine List.filter_congr fun l _ => ?_
          cases hl : l == k with
          | false => simp
          | true => simp [hp l k hl, hk]
        rw [List.filter_cons_of_neg hk, List.filter_cons_of_neg hk, ← hrest, hout]
termination_by ks => ks.length
decreasing_by exact Nat.lt_succ_of_le (List.length_filter_le ..)

variable [EquivBEq κ]

theorem recentKeys_concat : recentKeys keyOf (history ++ [x]) =
    keyOf x :: (recentKeys keyOf history).filter fun k => !k == keyOf x := by
  rw [recentKeys, List.map_append, List.map_singleton, List.reverse_concat, List.eraseDups_cons,
    eraseDups_filter]
  · rfl
  · intro a b hab
    rw [BEq.congr_left hab]

/-- With distinct keys there is at most one value to erase. -/
theorem eraseP_eq_filter (h : xs.Pairwise fun x y => (keyOf x == keyOf y) = false) (k : κ) :
    xs.eraseP (keyOf · == k) = xs.filter fun y => !keyOf y == k := by
  induction xs with
  | nil => rfl
  | cons x xs ih =>
      obtain ⟨hx, hxs⟩ := List.pairwise_cons.mp h
      by_cases hk : keyOf x == k
      · have hall : ∀ y ∈ xs, (!keyOf y == k) = true := by
          intro y hy
          have hxy := BEq.symm_false (hx y hy)
          rw [BEq.congr_right hk] at hxy
          simp [hxy]
        rw [List.eraseP_cons_of_pos (p := (keyOf · == k)) hk,
          List.filter_cons_of_neg (by simp [hk]), List.filter_eq_self.mpr hall]
      · rw [List.eraseP_cons_of_neg (p := (keyOf · == k)) hk,
          List.filter_cons_of_pos (by simp [hk]), ih hxs]

theorem latest_distinct (keyOf : α → κ) (history : List α) :
    (latest keyOf history).Pairwise fun x y => (keyOf x == keyOf y) = false := by
  induction history using List.reverseRecOn with
  | nil => exact .nil
  | append_singleton history x ih =>
      rw [latest_concat, eraseP_eq_filter ih]
      refine List.pairwise_cons.mpr ⟨fun y hy => ?_, ih.filter _⟩
      have hyx := List.of_mem_filter hy
      exact BEq.symm_false (by simpa using hyx)

/-- A list without limit holds a value of each key, the key added last in front. -/
theorem map_keyOf_latest (keyOf : α → κ) (history : List α) :
    (latest keyOf history).map keyOf = recentKeys keyOf history := by
  induction history using List.reverseRecOn with
  | nil => rfl
  | append_singleton history x ih =>
      rw [latest_concat, eraseP_eq_filter (latest_distinct keyOf history), recentKeys_concat, ← ih,
        List.map_cons, List.filter_map]
      rfl

/-- It holds the value added last under its key. -/
theorem lastUnder_of_mem_latest (hx : x ∈ latest keyOf history) :
    lastUnder keyOf history (keyOf x) = some x := by
  induction history using List.reverseRecOn with
  | nil => exact absurd hx List.not_mem_nil
  | append_singleton history y ih =>
      rw [latest_concat, eraseP_eq_filter (latest_distinct keyOf history)] at hx
      rw [lastUnder_concat]
      rcases List.mem_cons.mp hx with rfl | hx
      · rw [if_pos (BEq.refl _)]
      · have hne := List.of_mem_filter hx
        rw [if_neg (by simpa [BEq.comm] using hne), ih (List.mem_of_mem_filter hx)]

end Recency

namespace Cache

/-! ## Visitors -/

section
variable [BEq κ] [Hashable κ] {c : Cache κ α} {xs : List α} {keyOf : α → κ}

theorem Shows.toListRev_eq_reverse (h : Shows keyOf c xs) : c.toListRev = c.toList.reverse := by
  rw [h.toListRev_eq, h.toList_eq]

/-- A visitor that collects what it is shown gets all values, in the order of the end that it comes
from. -/
theorem Shows.collected (h : Shows keyOf c xs) :
    c.visit collecting [] = c.toList ∧ c.visitRev collecting [] = c.toList.reverse := by
  rw [visit, visitRev, h.toListRev_eq_reverse, visit_collecting, visit_collecting]
  exact ⟨rfl, rfl⟩

/-- Any visitor sees them as far as the one that it declines. -/
theorem Shows.seen {σ : Type w} (h : Shows keyOf c xs) (visitor : σ → α → σ × Bool) (memory : σ) :
    UntilDeclined visitor memory c.toList (c.visit visitor memory)
        (c.visit (recording visitor) (memory, [])) ∧
      UntilDeclined visitor memory c.toList.reverse (c.visitRev visitor memory)
        (c.visitRev (recording visitor) (memory, [])) := by
  rw [visitRev, visitRev, h.toListRev_eq_reverse]
  exact ⟨untilDeclined_visit visitor memory _, untilDeclined_visit visitor memory _⟩

end

/-! ## Runs -/

open Recency (recentKeys lastUnder latest)

variable [BEq κ] [Hashable κ] [EquivBEq κ] [LawfulHashable κ]

/-- After a run that takes nothing out, a cache shows the beginning of the list without limit. -/
theorem exists_shows_take_latest (keyOf : α → κ) {capacity : Nat} (hc : 0 < capacity) :
    ∃ fresh, create capacity = .ok fresh ∧
      ∀ requests : List (Request κ α), (∀ r ∈ requests, r.takesOut = false) →
        Shows keyOf (Step.forEach (serve keyOf) fresh requests).state
          ((latest keyOf (requests.flatMap Request.added)).take capacity) := by
  obtain ⟨fresh, hfresh, hempty⟩ := mirrors_create keyOf hc
  refine ⟨fresh, hfresh, fun requests hin => ?_⟩
  obtain ⟨hlast, -⟩ := Step.forEach_simulates (fun _ _ request h => h.serve request) hempty requests
  have hlist := Recency.run_take_latest keyOf hc [] requests hin
  have hnothing : (latest keyOf []).take capacity = ([] : List α) := List.take_nil
  rw [hnothing, List.nil_append] at hlist
  exact hlist ▸ hlast.holds.shows

/-- In a run that takes nothing out, a cache with room for a value shows the most recent keys of the
history, the one added last in front, as many as there are and as it has room for; and under each of
them it shows the value added last. From the other end it shows the same in reverse. A visitor that
collects what it is shown gets all these values in this order, or in reverse if it comes from the
other end; any other visitor sees them as far as the one that it declines. A cache that is at least
as large and to which the same values are added shows the same first, and perhaps more. -/
theorem run_shows_latest_keys (keyOf : α → κ) {capacity : Nat} (hc : 0 < capacity)
    (requests : List (Request κ α)) (hin : ∀ r ∈ requests, r.takesOut = false) :
    let history := requests.flatMap Request.added
    ∃ fresh, create capacity = .ok fresh ∧
      let c := (Step.forEach (serve keyOf) fresh requests).state
      c.toList.map keyOf = (recentKeys keyOf history).take capacity ∧
        (∀ x ∈ c.toList, lastUnder keyOf history (keyOf x) = some x) ∧
        c.size = min capacity (recentKeys keyOf history).length ∧
        c.toListRev = c.toList.reverse ∧
        (c.visit collecting [] = c.toList ∧ c.visitRev collecting [] = c.toList.reverse) ∧
        (∀ {σ : Type w} (visitor : σ → α → σ × Bool) (memory : σ),
          UntilDeclined visitor memory c.toList (c.visit visitor memory)
              (c.visit (recording visitor) (memory, [])) ∧
            UntilDeclined visitor memory c.toList.reverse (c.visitRev visitor memory)
              (c.visitRev (recording visitor) (memory, []))) ∧
        ∀ {larger : Nat}, capacity ≤ larger → ∃ wide, create larger = .ok wide ∧
          ∀ others : List (Request κ α), (∀ r ∈ others, r.takesOut = false) →
            others.flatMap Request.added = history →
            c.toList <+: (Step.forEach (serve keyOf) wide others).state.toList := by
  intro history
  obtain ⟨fresh, hfresh, hshows⟩ := exists_shows_take_latest keyOf hc
  obtain hshown := hshows requests hin
  have hlist := hshown.toList_eq
  refine ⟨fresh, hfresh, ?_, fun x hx => ?_, ?_, hshown.toListRev_eq_reverse, hshown.collected,
    hshown.seen, ?_⟩
  · rw [hlist, List.map_take, Recency.map_keyOf_latest]
  · rw [hlist] at hx
    exact Recency.lastUnder_of_mem_latest (List.mem_of_mem_take hx)
  · rw [hshown.size_eq, List.length_take, ← Recency.map_keyOf_latest, List.length_map]
  · intro larger hle
    obtain ⟨wide, hwide, hwideShows⟩ := exists_shows_take_latest keyOf (Nat.lt_of_lt_of_le hc hle)
    refine ⟨wide, hwide, fun others hothers hsame => ?_⟩
    rw [hlist, (hwideShows others hothers).toList_eq, hsame]
    exact List.take_prefix_take_left hle

/-- Room for two: key 1 leaves when key 3 arrives, comes back, and shows its last value. A visitor
that declines key 1 sees one value if it comes from the front, and both from the other end. -/
theorem run_shows_latest_keys_returned :
    let declining (count : Nat) (x : Nat × Nat) : Nat × Bool := (count + 1, x.1 != 1)
    0 < 2 ∧ ∃ fresh : Cache Nat (Nat × Nat), create 2 = .ok fresh ∧
      let c := (Step.forEach (serve Prod.fst) fresh
        [.addAll [(1, 10), (2, 20), (3, 30)], .add (1, 11), .addAll [(2, 21), (1, 12)]]).state
      c.toList.map Prod.fst = [1, 2] ∧ c.toList = [(1, 12), (2, 21)] ∧
        c.visit collecting [] = [(1, 12), (2, 21)] ∧
        c.visitRev collecting [] = [(2, 21), (1, 12)] ∧
        c.visit (recording declining) (0, []) = (1, [(1, 12)]) ∧
        Sees declining 0 c.toList (c.visit (recording declining) (0, [])).2 ∧
        c.visitRev (recording declining) (0, []) = (2, [(2, 21), (1, 12)]) ∧
        ∃ wide : Cache Nat (Nat × Nat), create 3 = .ok wide ∧
          c.toList <+: (Step.forEach (serve Prod.fst) wide
            [.addAll [(1, 10), (2, 20), (3, 30), (1, 11), (2, 21), (1, 12)]]).state.toList := by
  intro declining
  refine ⟨by decide, ?_⟩
  obtain ⟨fresh, hfresh, hkeys, -, -, -, ⟨hforth, hback⟩, hseen, hlarger⟩ :=
    run_shows_latest_keys.{0, 0, 0} (Prod.fst : Nat × Nat → Nat) (show 0 < 2 by decide)
      [.addAll [(1, 10), (2, 20), (3, 30)], .add (1, 11), .addAll [(2, 21), (1, 12)]]
      (by simp [Request.takesOut])
  obtain ⟨wide, hwide, hprefix⟩ := hlarger (show 2 ≤ 3 by decide)
  obtain rfl : ({ capacity := 2 } : Cache Nat (Nat × Nat)) = fresh := Except.ok.inj hfresh
  obtain ⟨hfirst, -⟩ := hseen declining 0
  refine ⟨_, hfresh, hkeys.trans (by decide), ?_, hforth.trans ?_, hback.trans ?_, ?_, hfirst.sees,
    ?_, wide, hwide, ?_⟩
  · cbv
  · cbv
  · cbv
  · cbv
  · cbv
  · exact hprefix _ (by simp [Request.takesOut]) rfl

end Cache

end Retention
