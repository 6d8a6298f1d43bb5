/-
# Retention.Proofs.Run -- what one step keeps, a run keeps

A run is the same operation for one request after the other. Three inductions over it are all that
is ever needed: a property that every step keeps holds at the end; a system whose every step, or
every step of a kind that is admitted, is answered alike by another system gives the same results
over any run of such steps; and if it is only known which effects a request may have, and with which
answer, then the requests and answers of a run follow these effects from its beginning to its end.
What every step conserves, in this order or in any, is conserved by the run. Where a request that
fails leaves everything as it was, the requests that fail can be left out of a run.
-/
import Mathlib.Data.List.Perm.Basic
import Retention.Step

namespace Retention.Step

open scoped List

universe u v w x y z

variable {σ : Type u} {τ : Type x} {ρ : Type v} {α : Type w} {β : Type y} {γ : Type z} {π : Type z}

theorem forEach_cons (op : σ → α → Step σ ρ) (s : σ) (a : α) (as : List α) :
    forEach op s (a :: as) =
      { state := (forEach op (op s a).state as).state
        result := (op s a).result :: (forEach op (op s a).state as).result
        events := (op s a).events ++ (forEach op (op s a).state as).events } := rfl

/-- A property that every step keeps holds after every run. -/
theorem forEach_induction {op : σ → α → Step σ ρ} {P : σ → Prop}
    (hstep : ∀ s a, P s → P (op s a).state) {s : σ} (hs : P s) (as : List α) :
    P (forEach op s as).state := by
  induction as generalizing s with
  | nil => exact hs
  | cons a as ih => exact ih (hstep s a hs)

/-- Every request of a run is admitted by the state that it meets. -/
def Admitted (op : σ → α → Step σ ρ) (admits : σ → α → Prop) (s : σ) (as : List α) : Prop :=
  ∀ before a after, as = before ++ a :: after → admits (forEach op s before).state a

section
variable {op : σ → α → Step σ ρ} {admits : σ → α → Prop} {s : σ} {a : α} {as bs : List α}

theorem admitted_nil : Admitted op admits s [] := by
  intro before a after hsplit
  exact absurd hsplit.symm (List.append_ne_nil_of_right_ne_nil before (List.cons_ne_nil a after))

theorem admitted_cons :
    Admitted op admits s (a :: as) ↔ admits s a ∧ Admitted op admits (op s a).state as := by
  constructor
  · intro h
    refine ⟨h [] a as rfl, fun before b after hsplit => ?_⟩
    exact h (a :: before) b after (by rw [hsplit, List.cons_append])
  · rintro ⟨hfirst, hothers⟩ before b after hsplit
    cases before with
    | nil =>
        obtain ⟨rfl, rfl⟩ := List.cons.inj hsplit
        exact hfirst
    | cons c before =>
        obtain ⟨rfl, rfl⟩ := List.cons.inj hsplit
        exact hothers before b after rfl

/-- The beginning of a run meets the same states alone. -/
theorem Admitted.of_append (h : Admitted op admits s (as ++ bs)) : Admitted op admits s as := by
  rintro before a after rfl
  exact h before a (after ++ bs) (by rw [List.append_assoc, List.cons_append])

end

/-- Two systems whose related states answer every request that the first one admits alike, and stay
related, give the same results over every run of such requests. -/
theorem forEach_simulates_of_admitted {op : σ → α → Step σ ρ} {op' : τ → α → Step τ ρ}
    {admits : σ → α → Prop} {R : σ → τ → Prop}
    (hstep : ∀ s t a, R s t → admits s a →
      R (op s a).state (op' t a).state ∧ (op s a).result = (op' t a).result)
    {s : σ} {t : τ} (hst : R s t) {as : List α} (has : Admitted op admits s as) :
    R (forEach op s as).state (forEach op' t as).state ∧
      (forEach op s as).result = (forEach op' t as).result := by
  induction as generalizing s t with
  | nil => exact ⟨hst, rfl⟩
  | cons a as ih =>
      obtain ⟨hfirst, hothers⟩ := admitted_cons.mp has
      -- The states after the first request are related again, so the rest can start in them.
      obtain ⟨hnext, hresult⟩ := hstep s t a hst hfirst
      obtain ⟨hlast, hresults⟩ := ih hnext hothers
      exact ⟨hlast, by rw [forEach_cons, forEach_cons, hresult, hresults]⟩

/-- Two systems whose related states answer every request alike, and stay related, give the same
results over every run. -/
theorem forEach_simulates {op : σ → α → Step σ ρ} {op' : τ → α → Step τ ρ} {R : σ → τ → Prop}
    (hstep : ∀ s t a, R s t → R (op s a).state (op' t a).state ∧ (op s a).result = (op' t a).result)
    {s : σ} {t : τ} (hst : R s t) (as : List α) :
    R (forEach op s as).state (forEach op' t as).state ∧
      (forEach op s as).result = (forEach op' t as).result := by
  have hall : Admitted op (fun _ _ => True) s as := fun _ _ _ _ => trivial
  exact forEach_simulates_of_admitted (fun s t a h _ => hstep s t a h) hst hall

/-! ## Transcripts -/

/-- The requests of a run, each with the answer it got. -/
def transcript (op : σ → α → Step σ ρ) (s : σ) (as : List α) : List (α × ρ) :=
  as.zip (forEach op s as).result

theorem transcript_cons (op : σ → α → Step σ ρ) (s : σ) (a : α) (as : List α) :
    transcript op s (a :: as) = (a, (op s a).result) :: transcript op (op s a).state as := rfl

theorem map_fst_transcript (op : σ → α → Step σ ρ) (s : σ) (as : List α) :
    (transcript op s as).map Prod.fst = as :=
  List.map_fst_zip (Nat.le_of_eq (length_result_forEach op s as).symm)

theorem map_snd_transcript (op : σ → α → Step σ ρ) (s : σ) (as : List α) :
    (transcript op s as).map Prod.snd = (forEach op s as).result :=
  List.map_snd_zip (Nat.le_of_eq (length_result_forEach op s as))

theorem flatMap_fst_transcript (op : σ → α → Step σ ρ) (s : σ) (as : List α) (f : α → List β) :
    (transcript op s as).flatMap (fun t => f t.1) = as.flatMap f := by
  rw [← List.flatMap_map Prod.fst f, map_fst_transcript]

theorem flatMap_snd_transcript (op : σ → α → Step σ ρ) (s : σ) (as : List α) (f : ρ → List β) :
    (transcript op s as).flatMap (fun t => f t.2) = (forEach op s as).result.flatMap f := by
  rw [← List.flatMap_map Prod.snd f, map_snd_transcript]

/-- A relation between the history and the state that every step keeps holds after every run. -/
theorem transcript_induction {op : σ → α → Step σ ρ} {R : List (α × ρ) → σ → Prop}
    (hstep : ∀ ts s a, R ts s → R (ts ++ [(a, (op s a).result)]) (op s a).state)
    {ts : List (α × ρ)} {s : σ} (h : R ts s) (as : List α) :
    R (ts ++ transcript op s as) (forEach op s as).state := by
  induction as generalizing ts s with
  | nil => rwa [transcript, List.zip_nil_left, List.append_nil]
  | cons a as ih =>
      -- The first request and its answer belong to the history of the others.
      have hothers := ih (hstep ts s a h)
      rwa [List.append_assoc] at hothers

/-- The requests of a transcript, with the answers they got, lead from one description to another
when each has one of its effects. -/
inductive Follows (effect : τ → α → ρ → τ → Prop) : τ → List (α × ρ) → τ → Prop
  | nil (t : τ) : Follows effect t [] t
  | cons {t u v : τ} {a : α} {r : ρ} {rest : List (α × ρ)} (first : effect t a r u)
      (others : Follows effect u rest v) : Follows effect t ((a, r) :: rest) v

/-- If every step has one of the effects on a description of its state, every run follows them. -/
theorem forEach_follows {op : σ → α → Step σ ρ} {effect : τ → α → ρ → τ → Prop} {R : σ → τ → Prop}
    (hstep : ∀ s t a, R s t → ∃ u, effect t a (op s a).result u ∧ R (op s a).state u)
    {s : σ} {t : τ} (hst : R s t) (as : List α) :
    ∃ u, Follows effect t (transcript op s as) u ∧ R (forEach op s as).state u := by
  induction as generalizing s t with
  | nil => exact ⟨t, .nil t, hst⟩
  | cons a as ih =>
      -- The first request leads to a description of the state that the others start in.
      obtain ⟨u, hfirst, hnext⟩ := hstep s t a hst
      obtain ⟨v, hothers, hlast⟩ := ih hnext
      exact ⟨v, .cons hfirst hothers, hlast⟩

/-- If with every effect what is there and what enters is what leaves and what is there then, this
adds up over a run, and nothing is lost, doubled or reordered. -/
theorem follows_conserves {effect : τ → α → ρ → τ → Prop} {contents : τ → List β}
    {enters : α → List β} {leaves : ρ → List β}
    (hstep : ∀ t a r u, effect t a r u → contents t ++ enters a = leaves r ++ contents u)
    {t u : τ} {ts : List (α × ρ)} (h : Follows effect t ts u) :
    contents t ++ (ts.map Prod.fst).flatMap enters =
      (ts.map Prod.snd).flatMap leaves ++ contents u := by
  induction h with
  | nil => simp
  | @cons t u v a r rest hfirst _ ih =>
      simp only [List.map_cons, List.flatMap_cons]
      calc contents t ++ (enters a ++ (rest.map Prod.fst).flatMap enters)
        _ = contents t ++ enters a ++ (rest.map Prod.fst).flatMap enters :=
            (List.append_assoc ..).symm
        _ = leaves r ++ (contents u ++ (rest.map Prod.fst).flatMap enters) := by
            rw [hstep t a r u hfirst, List.append_assoc]
        _ = leaves r ++ ((rest.map Prod.snd).flatMap leaves ++ contents v) := by
            rw [ih]
        _ = leaves r ++ (rest.map Prod.snd).flatMap leaves ++ contents v :=
            (List.append_assoc ..).symm

/-- If with every step what is there and what enters is, in some order, what leaves and what is
there then, this adds up over a run, and nothing is lost or doubled. -/
theorem forEach_balances (op : σ → α → Step σ ρ) (contents : σ → List β)
    (enters leaves : α × ρ → List β)
    (hstep : ∀ s a, (contents s ++ enters (a, (op s a).result)).Perm
      (leaves (a, (op s a).result) ++ contents (op s a).state)) (s : σ) (as : List α) :
    (contents s ++ (transcript op s as).flatMap enters).Perm
      ((transcript op s as).flatMap leaves ++ contents (forEach op s as).state) := by
  induction as generalizing s with
  | nil => simp [transcript]
  | cons a as ih =>
      -- The first request balances, and so do the others from the state that it leaves.
      have hfirst := hstep s a
      have hothers := ih (op s a).state
      rw [transcript_cons, List.flatMap_cons, List.flatMap_cons]
      calc contents s ++ (enters (a, (op s a).result) ++ _)
        _ = contents s ++ enters (a, (op s a).result) ++ _ := (List.append_assoc ..).symm
        _ ~ leaves (a, (op s a).result) ++ contents (op s a).state ++ _ := hfirst.append_right _
        _ = leaves (a, (op s a).result) ++ (contents (op s a).state ++ _) := List.append_assoc ..
        _ ~ leaves (a, (op s a).result) ++ (_ ++ _) := hothers.append_left _
        _ = _ := (List.append_assoc ..).symm

/-! ## Requests made of smaller ones -/

theorem forEach_append (op : σ → α → Step σ ρ) (s : σ) (as bs : List α) :
    forEach op s (as ++ bs) =
      { state := (forEach op (forEach op s as).state bs).state
        result := (forEach op s as).result ++ (forEach op (forEach op s as).state bs).result
        events := (forEach op s as).events ++ (forEach op (forEach op s as).state bs).events } := by
  induction as generalizing s with
  | nil => rfl
  | cons a as ih =>
      rw [List.cons_append, forEach_cons, forEach_cons, ih]
      simp only [List.cons_append, List.append_assoc]

theorem state_forEach_concat (op : σ → α → Step σ ρ) (s : σ) (as : List α) (a : α) :
    (forEach op s (as ++ [a])).state = (op (forEach op s as).state a).state := by
  rw [forEach_append]
  rfl

theorem transcript_concat (op : σ → α → Step σ ρ) (s : σ) (as : List α) (a : α) :
    transcript op s (as ++ [a]) =
      transcript op s as ++ [(a, (op (forEach op s as).state a).result)] := by
  rw [transcript, forEach_append, List.zip_append (length_result_forEach op s as).symm]
  rfl

theorem forEach_map (op : σ → α → Step σ ρ) (f : β → α) (s : σ) (bs : List β) :
    forEach op s (bs.map f) = forEach (fun s b => op s (f b)) s bs := by
  induction bs generalizing s with
  | nil => rfl
  | cons b bs ih => rw [List.map_cons, forEach_cons, forEach_cons, ih]

/-- Requests each of which does what a run of smaller requests does: together they do what all the
smaller ones do. -/
theorem forEach_flatMap {op : σ → α → Step σ ρ} {part : σ → β → Step σ π} {parts : α → List β}
    {f : ρ → List γ} {g : π → List γ}
    (hstep : ∀ s a, (op s a).state = (forEach part s (parts a)).state ∧
      f (op s a).result = (forEach part s (parts a)).result.flatMap g ∧
      (op s a).events = (forEach part s (parts a)).events) (s : σ) (as : List α) :
    (forEach op s as).state = (forEach part s (as.flatMap parts)).state ∧
      (forEach op s as).result.flatMap f = (forEach part s (as.flatMap parts)).result.flatMap g ∧
      (forEach op s as).events = (forEach part s (as.flatMap parts)).events := by
  induction as generalizing s with
  | nil => exact ⟨rfl, rfl, rfl⟩
  | cons a as ih =>
      obtain ⟨hstate, hresult, hevents⟩ := hstep s a
      obtain ⟨ihState, ihResult, ihEvents⟩ := ih (op s a).state
      rw [List.flatMap_cons, forEach_append, forEach_cons, ← hstate, ← hevents]
      refine ⟨ihState, ?_, ?_⟩
      · rw [List.flatMap_cons, List.flatMap_append, hresult, ihResult]
      · rw [ihEvents]

/-! ## Requests that fail -/

/-- The requests of a run that do not fail. -/
def succeeding {ε : Type y} (op : σ → α → Step σ (Except ε ρ)) (s : σ) (as : List α) : List α :=
  ((transcript op s as).filter fun t => t.2.isOk).map Prod.fst

/-- If a request that fails leaves everything as it was and reports nothing, a run without those
that fail ends in the same state, with the same answers and the same reports. -/
theorem forEach_succeeding {ε : Type y} {op : σ → α → Step σ (Except ε ρ)}
    (hstep : ∀ s a e, (op s a).result = .error e → (op s a).state = s ∧ (op s a).events = [])
    (s : σ) (as : List α) :
    forEach op s (succeeding op s as) =
      (forEach op s as).map (List.filter Except.isOk) := by
  induction as generalizing s with
  | nil => rfl
  | cons a as ih =>
      cases hresult : (op s a).result with
      | error e =>
          obtain ⟨hstate, hevents⟩ := hstep s a e hresult
          have hleft : succeeding op s (a :: as) = succeeding op s as := by
            rw [succeeding, transcript_cons, hresult, hstate]
            rfl
          rw [hleft, ih, forEach_cons, hresult, hstate, hevents]
          rfl
      | ok r =>
          have hkept : succeeding op s (a :: as) = a :: succeeding op (op s a).state as := by
            rw [succeeding, transcript_cons, hresult]
            rfl
          rw [hkept, forEach_cons, ih, forEach_cons, hresult]
          rfl

/-! ## Notes -/

/-- The same operation by someone who first takes a note on the state and the request. -/
def noting (note : σ → α → π) (op : σ → α → Step σ ρ) (s : σ) (a : α) : Step σ (ρ × π) :=
  (op s a).map fun r => (r, note s a)

/-- Taking notes changes nothing. -/
theorem forEach_noting (note : σ → α → π) (op : σ → α → Step σ ρ) (s : σ) (as : List α) :
    (forEach (noting note op) s as).map (List.map Prod.fst) = forEach op s as := by
  induction as generalizing s with
  | nil => rfl
  | cons a as ih =>
      rw [forEach_cons, forEach_cons, ← ih]
      rfl

theorem state_forEach_noting (note : σ → α → π) (op : σ → α → Step σ ρ) (s : σ) (as : List α) :
    (forEach (noting note op) s as).state = (forEach op s as).state :=
  congrArg Step.state (forEach_noting note op s as)

theorem transcript_noting (note : σ → α → π) (op : σ → α → Step σ ρ) (s : σ) (as : List α) :
    (transcript (noting note op) s as).map (fun t => (t.1, t.2.1)) = transcript op s as := by
  induction as generalizing s with
  | nil => rfl
  | cons a as ih =>
      rw [transcript_cons, transcript_cons, List.map_cons]
      exact congrArg _ (ih (op s a).state)

/-- If some leave without being handed out, and a note is taken of them, the notes add up too. -/
theorem noting_balances (note : σ → α → List β) (op : σ → α → Step σ ρ) (contents : σ → List β)
    (enters : α × ρ → List β) (leaves : ρ → List β)
    (hstep : ∀ s a, (contents s ++ enters (a, (op s a).result)).Perm
      (leaves (op s a).result ++ note s a ++ contents (op s a).state)) (s : σ) (as : List α) :
    (contents s ++ (transcript op s as).flatMap enters).Perm
      ((forEach op s as).result.flatMap leaves ++
        (forEach (noting note op) s as).result.flatMap Prod.snd ++
        contents (forEach op s as).state) := by
  have hrun := forEach_balances (noting note op) contents (fun t => enters (t.1, t.2.1))
    (fun t => leaves t.2.1 ++ t.2.2) hstep s as
  have henters : (transcript (noting note op) s as).flatMap (fun t => enters (t.1, t.2.1)) =
      (transcript op s as).flatMap enters := by
    rw [← transcript_noting note op s as, List.flatMap_map]
  have hleaves : (forEach (noting note op) s as).result.flatMap (fun out => leaves out.1) =
      (forEach op s as).result.flatMap leaves := by
    rw [← forEach_noting note op s as]
    exact (List.flatMap_map ..).symm
  rw [henters, flatMap_snd_transcript (noting note op) s as fun out => leaves out.1 ++ out.2,
    state_forEach_noting] at hrun
  rw [← hleaves]
  exact hrun.trans ((List.flatMap_append_perm _ _ _).symm.append_right _)

end Retention.Step
