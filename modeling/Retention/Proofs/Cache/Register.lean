/-
# Retention.Proofs.Cache.Register -- every value that was added, with its fate

A register lists all values that were ever added to a cache, in this order, each with its fate. As
long as a value is in the cache its fate is to be retained. Later an addition of an equal key
overwrites it, or it is evicted, or it is dropped when the cache is cleared; and that is final.
`Effect` says how the register changes at each move of the cache, and what is seen of it from
outside: the value handed out as evicted, and what a bystander noted before the move.

Since the cache gives up its values in the order in which they were added, those evicted or dropped
so far were all added before those it still has. For that reason the values of one fate, read off
the register in order, are just those seen from outside, one after the other.
-/
import Retention.Proofs.Cache.History

namespace Retention

universe u v

variable {κ : Type u} {α : Type v}

namespace Cache

/-! ## Moves -/

/-- What a cache does with one value, or with all. -/
inductive Move (α : Type v) where
  | add (x : α)
  | evict
  | clear

/-- The value that a move adds, if any. -/
def Move.added : Move α → List α
  | .add x => [x]
  | .evict | .clear => []

/-- The moves that serve a request, in order. -/
def Request.moves : Request κ α → List (Move α)
  | .add x => [.add x]
  | .addAll xs => xs.map .add
  | .evict => [.evict]
  | .clear => [.clear]
  | .peek _ | .contains _ => []

theorem flatMap_added_moves (requests : List (Request κ α)) :
    (requests.flatMap Request.moves).flatMap Move.added = requests.flatMap Request.added := by
  rw [List.flatMap_assoc]
  refine List.flatMap_congr fun request _ => ?_
  cases request with
  | addAll xs => simp [Request.moves, Request.added, Move.added, List.flatMap_map]
  | _ => rfl

/-- What a bystander sees in a cache just before a move: the value that is there under the key of
the one to be added, the one to be added if there is none, and the values to be dropped. -/
structure Note (α : Type v) where
  overwritten : List α := []
  newcomers : List α := []
  dropped : List α := []

section
variable [BEq κ] [Hashable κ]

/-- One move of a cache. The result is the value evicted by it, if any. -/
def perform (keyOf : α → κ) (c : Cache κ α) : Move α → Step (Cache κ α) (Option α)
  | .add x => c.add keyOf x
  | .evict => c.evict keyOf
  | .clear => { state := c.clear, result := none }

/-- What a bystander notes before a move. -/
def note (keyOf : α → κ) (c : Cache κ α) : Move α → Note α
  | .add x =>
    { overwritten := (c.peek? (keyOf x)).toList
      newcomers := if c.contains (keyOf x) then [] else [x] }
  | .evict => {}
  | .clear => { dropped := c.toListRev }

/-- One move of a cache that a bystander watches. -/
def watch (keyOf : α → κ) : Cache κ α → Move α → Step (Cache κ α) (Option α × Note α) :=
  Step.noting (note keyOf) (perform keyOf)

/-- A request does what its moves do. -/
theorem serve_eq_moves (keyOf : α → κ) (c : Cache κ α) (request : Request κ α) :
    let moved := Step.forEach (perform keyOf) c request.moves
    (c.serve keyOf request).state = moved.state ∧
      (c.serve keyOf request).result.evicted = moved.result.flatMap Option.toList ∧
      (c.serve keyOf request).events = moved.events := by
  cases request with
  | add x => exact ⟨rfl, (List.append_nil _).symm, (List.append_nil _).symm⟩
  | addAll xs =>
      rw [Request.moves, Step.forEach_map]
      exact ⟨rfl, List.filterMap_eq_flatMap_toList id _, rfl⟩
  | evict => exact ⟨rfl, (List.append_nil _).symm, (List.append_nil _).symm⟩
  | clear => exact ⟨rfl, rfl, rfl⟩
  | peek k => exact ⟨rfl, rfl, rfl⟩
  | contains k => exact ⟨rfl, rfl, rfl⟩

/-- The bystander sees in the moves of a run what the run does. -/
theorem watch_eq_serve (keyOf : α → κ) (c : Cache κ α) (requests : List (Request κ α)) :
    let watched := Step.forEach (watch keyOf) c (requests.flatMap Request.moves)
    let served := Step.forEach (serve keyOf) c requests
    watched.state = served.state ∧
      watched.result.flatMap (·.1.toList) = served.result.flatMap Response.evicted ∧
      watched.events = served.events := by
  intro watched served
  have hwatch : watched.map (List.map Prod.fst) =
      Step.forEach (perform keyOf) c (requests.flatMap Request.moves) :=
    Step.forEach_noting (note keyOf) (perform keyOf) c (requests.flatMap Request.moves)
  obtain ⟨hstate, hevicted, hevents⟩ := Step.forEach_flatMap (serve_eq_moves keyOf) c requests
  rw [← hwatch] at hstate hevicted hevents
  refine ⟨hstate.symm, ?_, hevents.symm⟩
  rw [hevicted, Step.map, List.flatMap_map]

end

/-! ## Registers -/

/-- What can become of a value that was added. -/
inductive Fate where
  | retained
  | overwritten
  | evicted
  | dropped
deriving DecidableEq

/-- All values that were added, in this order, with their fates. -/
abbrev Register (α : Type v) := List (α × Fate)

namespace Register

/-- The values of one fate, in the order in which they were added. -/
def having (fate : Fate) (register : Register α) : List α :=
  register.filterMap fun e => if e.2 = fate then some e.1 else none

/-- The register after the cache was cleared. -/
def dropAll (register : Register α) : Register α :=
  register.map fun e => if e.2 = .retained then (e.1, .dropped) else e

variable {fate other : Fate} {register before after : Register α} {x : α} {xs ys : List α}

@[simp] theorem having_nil (fate : Fate) : having fate ([] : Register α) = [] := rfl

@[simp] theorem having_append (fate : Fate) (before after : Register α) :
    having fate (before ++ after) = having fate before ++ having fate after :=
  List.filterMap_append

@[simp] theorem having_cons (fate other : Fate) (x : α) (register : Register α) :
    having fate ((x, other) :: register) =
      if other = fate then x :: having fate register else having fate register := by
  rw [having, List.filterMap_cons]
  by_cases h : other = fate
  · rw [if_pos h, if_pos h]
    rfl
  · rw [if_neg h, if_neg h]
    rfl

/-- A value of some fate cuts the register at the entry of that value. -/
theorem exists_of_having (h : having fate register = xs ++ x :: ys) :
    ∃ before after, register = before ++ (x, fate) :: after ∧
      having fate before = xs ∧ having fate after = ys := by
  obtain ⟨before, rest, rfl, hbefore, hrest⟩ := List.filterMap_eq_append_iff.mp h
  obtain ⟨between, ⟨y, f⟩, after, rfl, hbetween, hy, hafter⟩ := List.filterMap_eq_cons_iff.mp hrest
  have hyx : f = fate ∧ y = x := by simpa [Option.ite_none_right_eq_some] using hy
  obtain ⟨rfl, rfl⟩ := hyx
  refine ⟨before ++ between, after, (List.append_assoc ..).symm, ?_, hafter⟩
  rw [having_append, show having f before = xs from hbefore,
    show having f between = [] from List.filterMap_eq_nil_iff.mpr hbetween, List.append_nil]

theorem mem_having_iff : x ∈ having fate register ↔ (x, fate) ∈ register := by
  rw [having, List.mem_filterMap]
  constructor
  · rintro ⟨⟨y, other⟩, hmem, hy⟩
    obtain ⟨rfl, rfl⟩ : other = fate ∧ y = x := by simpa [Option.ite_none_right_eq_some] using hy
    exact hmem
  · intro hmem
    exact ⟨(x, fate), hmem, if_pos rfl⟩

/-- Every value has one fate. -/
theorem length_eq_having (register : Register α) : register.length =
    (register.having .retained).length + (register.having .overwritten).length +
      (register.having .evicted).length + (register.having .dropped).length := by
  induction register with
  | nil => rfl
  | cons e register ih =>
      obtain ⟨x, fate⟩ := e
      rw [List.length_cons, ih]
      cases fate <;> simp <;> omega

/-! ### The oldest leave first -/

/-- What was evicted or dropped had been added before everything that is retained. -/
def OldestFirst (register : Register α) : Prop :=
  register.Pairwise fun e f => e.2 = .retained → f.2 = .retained ∨ f.2 = .overwritten

theorem OldestFirst.concat (h : OldestFirst register) (x : α) :
    OldestFirst (register ++ [(x, .retained)]) := by
  refine List.pairwise_append.mpr ⟨h, List.pairwise_singleton .., fun e _ f hf _ => ?_⟩
  rw [List.mem_singleton.mp hf]
  exact Or.inl rfl

/-- A retained value may come to be overwritten, and the first one to any other fate. -/
theorem OldestFirst.settle (h : OldestFirst (before ++ (x, .retained) :: after))
    (hfate : fate ≠ .retained) (hmay : fate = .overwritten ∨ having .retained before = []) :
    OldestFirst (before ++ (x, fate) :: after) := by
  obtain ⟨hbefore, hcons, hacross⟩ := List.pairwise_append.mp h
  obtain ⟨-, hafter⟩ := List.pairwise_cons.mp hcons
  refine List.pairwise_append.mpr ⟨hbefore, List.pairwise_cons.mpr ⟨?_, hafter⟩, ?_⟩
  · intro f _ hret
    exact absurd hret hfate
  · rintro ⟨y, other⟩ he f hf rfl
    rcases List.mem_cons.mp hf with rfl | hf
    · rcases hmay with hover | hfirst
      · exact Or.inr hover
      · exact absurd (hfirst ▸ mem_having_iff.mpr he) List.not_mem_nil
    · exact hacross _ he f (List.mem_cons_of_mem _ hf) rfl

/-- Behind a retained value there is none evicted or dropped. -/
theorem OldestFirst.having_eq_nil (h : OldestFirst (before ++ (x, .retained) :: after))
    (hr : fate ≠ .retained) (ho : fate ≠ .overwritten) : having fate after = [] := by
  obtain ⟨-, hcons, -⟩ := List.pairwise_append.mp h
  obtain ⟨hx, -⟩ := List.pairwise_cons.mp hcons
  refine List.eq_nil_iff_forall_not_mem.mpr fun y hy => ?_
  rcases hx _ (mem_having_iff.mp hy) rfl with hfate | hfate
  · exact hr hfate
  · exact ho hfate

theorem oldestFirst_dropAll (register : Register α) : OldestFirst register.dropAll := by
  refine List.pairwise_map.mpr (List.pairwise_of_forall fun e _ hret => ?_)
  split at hret
  · exact Fate.noConfusion hret
  · next hne => exact absurd hret hne

/-- Clearing drops the values retained, behind those dropped before. -/
theorem OldestFirst.having_dropAll (h : OldestFirst register) :
    having .dropped register.dropAll = having .dropped register ++ having .retained register := by
  induction register with
  | nil => rfl
  | cons e register ih =>
      obtain ⟨x, fate⟩ := e
      have hrest := ih (List.pairwise_cons.mp h).2
      rw [dropAll, List.map_cons, ← dropAll]
      by_cases hfate : fate = .retained
      · -- Nothing behind a retained value was dropped before.
        subst hfate
        have hnone : having .dropped register = [] :=
          (show OldestFirst ([] ++ _) from h).having_eq_nil (by decide) (by decide)
        simp [hrest, hnone]
      · by_cases hdropped : fate = .dropped <;> simp [hfate, hdropped, hrest]

theorem having_retained_dropAll (register : Register α) :
    having .retained register.dropAll = [] := by
  refine List.eq_nil_iff_forall_not_mem.mpr fun x hx => ?_
  obtain ⟨e, -, he⟩ := List.mem_map.mp (mem_having_iff.mp hx)
  split at he
  · exact Fate.noConfusion (Prod.mk.inj he).2
  · next hne => exact hne (he ▸ rfl)

theorem having_dropAll_of_ne (hr : fate ≠ .retained) (hd : fate ≠ .dropped)
    (register : Register α) : having fate register.dropAll = having fate register := by
  rw [having, dropAll, List.filterMap_map]
  refine List.filterMap_congr fun e _ => ?_
  by_cases he : e.2 = .retained
  · simp [he, Ne.symm hr, Ne.symm hd]
  · simp [he]

theorem map_fst_dropAll (register : Register α) :
    register.dropAll.map Prod.fst = register.map Prod.fst := by
  rw [dropAll, List.map_map]
  refine List.map_congr_left fun e _ => ?_
  rw [Function.comp_apply]
  split <;> rfl

end Register

/-! ## Effects -/

open Register

variable [BEq κ] {keyOf : α → κ} {capacity : Nat} {register next : Register α} {move : Move α}
  {seen : Option α × Note α}

/-- What a move does to the register, and what is seen of it: the value handed out as evicted, and
the note taken before. -/
inductive Effect (keyOf : α → κ) (capacity : Nat) :
    Register α → Move α → Option α × Note α → Register α → Prop
  | enters {register : Register α} {x : α}
      (hnew : ∀ y ∈ register.having .retained, (keyOf y == keyOf x) = false)
      (hroom : (register.having .retained).length < capacity) :
      Effect keyOf capacity register (.add x) (none, { newcomers := [x] })
        (register ++ [(x, .retained)])
  | displaces {register before after : Register α} {x y : α}
      (hnew : ∀ y ∈ register.having .retained, (keyOf y == keyOf x) = false)
      (hfull : capacity ≤ (register.having .retained).length)
      (hline : register ++ [(x, .retained)] = before ++ (y, .retained) :: after)
      (hfirst : before.having .retained = []) :
      Effect keyOf capacity register (.add x) (some y, { newcomers := [x] })
        (before ++ (y, .evicted) :: after)
  | overwrites {before after : Register α} {x y : α} (hkey : keyOf y == keyOf x) :
      Effect keyOf capacity (before ++ (y, .retained) :: after) (.add x)
        (none, { overwritten := [y] }) (before ++ (y, .overwritten) :: after ++ [(x, .retained)])
  | evicts {before after : Register α} {y : α} (hfirst : before.having .retained = []) :
      Effect keyOf capacity (before ++ (y, .retained) :: after) .evict (some y, {})
        (before ++ (y, .evicted) :: after)
  | finds_none {register : Register α} (hnone : register.having .retained = []) :
      Effect keyOf capacity register .evict (none, {}) register
  | clears (register : Register α) :
      Effect keyOf capacity register .clear (none, { dropped := register.having .retained })
        register.dropAll

theorem Effect.oldestFirst (h : Effect keyOf capacity register move seen next)
    (ho : register.OldestFirst) : next.OldestFirst := by
  cases h with
  | @enters _ x => exact ho.concat x
  | @displaces _ before after x y _ _ hline hfirst =>
      have hboth := ho.concat x
      rw [hline] at hboth
      exact hboth.settle (by decide) (Or.inr hfirst)
  | @overwrites before after x y => exact (ho.settle (by decide) (Or.inl rfl)).concat x
  | @evicts before after y hfirst => exact ho.settle (by decide) (Or.inr hfirst)
  | finds_none => exact ho
  | clears => exact oldestFirst_dropAll register

/-- What is seen of some moves accounts for all changes from one register to another. -/
structure Accounts (register : Register α) (ts : List (Move α × Option α × Note α))
    (next : Register α) : Prop where
  added : next.map Prod.fst = register.map Prod.fst ++ (ts.map Prod.fst).flatMap Move.added
  evicted : next.having .evicted =
    register.having .evicted ++ (ts.map Prod.snd).flatMap (·.1.toList)
  dropped : next.having .dropped =
    register.having .dropped ++ ((ts.map Prod.snd).map Prod.snd).flatMap Note.dropped
  overwritten : (next.having .overwritten).Perm
    (register.having .overwritten ++ ((ts.map Prod.snd).map Prod.snd).flatMap Note.overwritten)
  known : ((ts.map Prod.fst).flatMap Move.added).length =
    (((ts.map Prod.snd).map Prod.snd).flatMap Note.newcomers).length +
      (((ts.map Prod.snd).map Prod.snd).flatMap Note.overwritten).length

theorem Accounts.refl (register : Register α) : Accounts register [] register := by
  constructor <;> simp

theorem Accounts.trans {between : Register α} {ts us : List (Move α × Option α × Note α)}
    (h : Accounts register ts between) (g : Accounts between us next) :
    Accounts register (ts ++ us) next where
  added := by
    rw [g.added, h.added, List.map_append, List.flatMap_append, List.append_assoc]
  evicted := by
    rw [g.evicted, h.evicted, List.map_append, List.flatMap_append, List.append_assoc]
  dropped := by
    rw [g.dropped, h.dropped, List.map_append, List.map_append, List.flatMap_append,
      List.append_assoc]
  overwritten := by
    rw [List.map_append, List.map_append, List.flatMap_append, ← List.append_assoc]
    exact g.overwritten.trans (h.overwritten.append_right _)
  known := by
    have hfirst := h.known
    have hlater := g.known
    simp only [List.map_append, List.flatMap_append, List.length_append]
    omega

theorem accounts_enter (register : Register α) (x : α) :
    Accounts register [(.add x, none, { newcomers := [x] })] (register ++ [(x, .retained)]) := by
  constructor <;> simp [Move.added]

/-- When the first retained value is evicted, it comes behind all those evicted before. -/
theorem accounts_evict {before after : Register α} {x : α}
    (ho : Register.OldestFirst (before ++ (x, .retained) :: after)) :
    Accounts (before ++ (x, .retained) :: after) [(.evict, some x, {})]
      (before ++ (x, .evicted) :: after) := by
  have hnone := ho.having_eq_nil (show Fate.evicted ≠ .retained by decide) (by decide)
  constructor <;> simp [Move.added, hnone]

theorem Effect.accounts (h : Effect keyOf capacity register move seen next)
    (ho : register.OldestFirst) : Accounts register [(move, seen)] next := by
  cases h with
  | @enters _ x => exact accounts_enter register x
  | @displaces _ before after x y _ _ hline _ =>
      -- The newcomer enters before the first one leaves.
      have hline' := hline ▸ ho.concat x
      have hboth := (accounts_enter register x).trans (hline ▸ accounts_evict hline')
      exact ⟨by simpa [Move.added] using hboth.added, by simpa using hboth.evicted,
        by simpa using hboth.dropped, by simpa using hboth.overwritten, by simp [Move.added]⟩
  | @overwrites before after x y =>
      constructor <;> simp [Move.added]
      exact (List.perm_append_singleton y _).symm.append_left _
  | @evicts before after y hfirst => exact accounts_evict ho
  | finds_none => constructor <;> simp [Move.added]
  | clears =>
      constructor <;> simp [Move.added, map_fst_dropAll, ho.having_dropAll, having_dropAll_of_ne]

/-- The moves of a run account for all changes. -/
theorem accounts_of_follows {ts : List (Move α × Option α × Note α)}
    (h : Step.Follows (Effect keyOf capacity) register ts next) (ho : register.OldestFirst) :
    Accounts register ts next := by
  induction h with
  | nil register => exact .refl register
  | cons hfirst _ ih => exact (hfirst.accounts ho).trans (ih (hfirst.oldestFirst ho))

/-! ## What leaves -/

/-- A value is evicted on demand if one is retained, and for a newcomer if there is no room. -/
theorem Effect.isSome_iff (h : Effect keyOf capacity register move seen next) :
    seen.1.isSome = true ↔ move = .evict ∧ register.having .retained ≠ [] ∨
      ∃ x, move = .add x ∧ (∀ y ∈ register.having .retained, (keyOf y == keyOf x) = false) ∧
        capacity ≤ (register.having .retained).length := by
  cases h with
  | enters _ hroom => simp [hroom]
  | displaces hnew hfull => simpa using ⟨hnew, hfull⟩
  | @overwrites before after x y hkey =>
      refine ⟨fun hsome => absurd hsome Bool.false_ne_true, ?_⟩
      rintro (⟨hmove, -⟩ | ⟨_, hmove, hnew, -⟩)
      · exact nomatch hmove
      · obtain rfl := Move.add.inj hmove
        rw [hnew y (by simp)] at hkey
        exact absurd hkey Bool.false_ne_true
  | evicts => simp
  | finds_none hnone => simp [hnone]
  | clears => simp

/-- The value that is evicted is the first of those retained, the newcomer being the last. -/
theorem Effect.line (h : Effect keyOf capacity register move seen next) {y : α}
    (hy : seen.1 = some y) :
    register.having .retained ++ move.added = y :: next.having .retained := by
  cases h with
  | @displaces _ before after x z _ _ hline hfirst =>
      obtain rfl := Option.some.inj hy
      have hretained := congrArg (Register.having .retained) hline
      simpa [Move.added, hfirst] using hretained
  | evicts hfirst =>
      obtain rfl := Option.some.inj hy
      simp [Move.added, hfirst]
  | enters | overwrites | finds_none | clears => exact absurd hy.symm (Option.some_ne_none y)

/-- When a value is evicted, those retained are in the order of their last additions. -/
theorem Effect.latest [EquivBEq κ] (h : Effect keyOf capacity register move seen next)
    (hl : (register.having .retained).reverse.Sublist
      (Recency.latest keyOf (register.map Prod.fst)))
    (hsome : seen.1.isSome = true) :
    (move.added ++ (register.having .retained).reverse).Sublist
      (Recency.latest keyOf (register.map Prod.fst ++ move.added)) := by
  cases h with
  | @displaces _ before after x y hnew =>
      have hall := Recency.cons_eraseP_sublist_latest hl x
      rwa [List.eraseP_of_forall_not] at hall
      intro y hy
      simp [hnew y (List.mem_reverse.mp hy)]
  | evicts => simpa [Move.added] using hl
  | enters | overwrites | finds_none | clears => exact absurd hsome Bool.false_ne_true

/-! ## What enters -/

/-- Adding a value to those retained leads to the next register, when this is noted before. -/
structure AddsTo (keyOf : α → κ) (capacity : Nat) (register : Register α) (x : α) (noted : Note α)
    (next : Register α) : Prop where
  effect : Effect keyOf capacity register (.add x)
    ((Recency.add keyOf capacity (register.having .retained).reverse x).result, noted) next
  retained : (Recency.add keyOf capacity (register.having .retained).reverse x).state =
    (next.having .retained).reverse
  values : next.map Prod.fst = register.map Prod.fst ++ [x]

/-- The value that is retained under an equal key is overwritten. -/
theorem exists_addsTo_of_known [EquivBEq κ] {x y : α} (hmem : y ∈ register.having .retained)
    (hkey : keyOf y == keyOf x)
    (hdistinct : (register.having .retained).reverse.Pairwise
      fun x y => (keyOf x == keyOf y) = false)
    (hle : (register.having .retained).reverse.length ≤ capacity) :
    ∃ next, AddsTo keyOf capacity register x { overwritten := [y] } next := by
  obtain ⟨xs, ys, hsplit⟩ := List.append_of_mem hmem
  obtain ⟨before, after, rfl, hbefore, hafter⟩ := exists_of_having hsplit
  have hlist : (Register.having .retained (before ++ (y, .retained) :: after)).reverse =
      ys.reverse ++ y :: xs.reverse := by
    rw [hsplit, List.reverse_append, List.reverse_cons, List.append_assoc]
    rfl
  have hadd := Recency.add_of_known hkey (hlist ▸ hdistinct) (hlist ▸ hle)
  refine ⟨before ++ (y, .overwritten) :: after ++ [(x, .retained)], ?_, ?_, by simp⟩
  · rw [hlist, hadd]
    exact .overwrites hkey
  · rw [hlist, hadd]
    simp [hbefore, hafter]

/-- If there is no room for a newcomer, the first of the values retained is evicted. -/
theorem exists_addsTo_of_full {x : α}
    (hnew : ∀ y ∈ register.having .retained, (keyOf y == keyOf x) = false)
    (hfull : capacity ≤ (register.having .retained).length) :
    ∃ next, AddsTo keyOf capacity register x { newcomers := [x] } next := by
  -- With the newcomer there is one value too many, so there is a first one to go.
  have hentered : Register.having .retained (register ++ [(x, .retained)]) =
      register.having .retained ++ [x] := by simp
  obtain ⟨y, rest, hline⟩ : ∃ y rest, register.having .retained ++ [x] = y :: rest :=
    List.exists_cons_of_ne_nil (by simp)
  obtain ⟨before, after, hsplit, hbefore, hafter⟩ :=
    exists_of_having (show _ = [] ++ y :: rest from hentered.trans hline)
  have hadd : Recency.add keyOf capacity (register.having .retained).reverse x =
      { state := rest.reverse, result := some y } := by
    have hlist : x :: (register.having .retained).reverse = rest.reverse ++ [y] := by
      rw [← List.reverse_cons, ← hline, List.reverse_concat]
    rw [Recency.add_of_new fun z hz => hnew z (List.mem_reverse.mp hz), List.length_reverse,
      if_pos (Nat.lt_succ_of_le hfull), hlist, Recency.evict, List.dropLast_concat,
      List.getLast?_concat]
  refine ⟨before ++ (y, .evicted) :: after, ?_, ?_, ?_⟩
  · rw [hadd]
    exact .displaces hnew hfull hsplit hbefore
  · rw [hadd]
    simp [hbefore, hafter]
  · have hvalues := congrArg (List.map Prod.fst) hsplit
    simpa using hvalues.symm

/-- If there is room for a newcomer, nothing leaves. -/
theorem addsTo_of_room {x : α}
    (hnew : ∀ y ∈ register.having .retained, (keyOf y == keyOf x) = false)
    (hroom : (register.having .retained).length < capacity) :
    AddsTo keyOf capacity register x { newcomers := [x] } (register ++ [(x, .retained)]) := by
  have hadd : Recency.add keyOf capacity (register.having .retained).reverse x =
      { state := x :: (register.having .retained).reverse, result := none } := by
    rw [Recency.add_of_new fun z hz => hnew z (List.mem_reverse.mp hz), List.length_reverse,
      if_neg (Nat.not_lt_of_le hroom)]
  refine ⟨?_, ?_, by simp⟩
  · rw [hadd]
    exact .enters hnew hroom
  · rw [hadd]
    simp

end Cache

end Retention
