import Mathlib

/-! Finite runs of a partial labelled step function: a label that is not
enabled in a state has no successor. The rules below carry an invariant along
a run, and turn a fact about one step (the property survives the step exactly
when the step is permitted) into the same fact about whole runs. -/

namespace Cherum.ActionRuns

variable {σ α : Type*} (step : σ → α → Option σ)

/-- The state a list of labels leads to, `none` once a label is not enabled. -/
def run (s : σ) : List α → Option σ
  | [] => some s
  | a :: rest => (step s a).bind fun t => run t rest

@[simp] theorem run_nil (s : σ) : run step s [] = some s := rfl

theorem run_cons (s : σ) (a : α) (rest : List α) :
    run step s (a :: rest) = (step s a).bind fun t => run step t rest := rfl

theorem run_append (s : σ) (first second : List α) :
    run step s (first ++ second) = (run step s first).bind fun t => run step t second := by
  induction first generalizing s with
  | nil => rfl
  | cons a rest ih =>
    simp only [List.cons_append, run_cons, Option.bind_assoc]
    exact congrArg _ (funext ih)

variable {step}

theorem run_invariant_of {I : σ → Prop} {ok : α → Prop}
    (hstep : ∀ s a t, ok a → I s → step s a = some t → I t)
    {s t : σ} {acts : List α} (hs : I s) (hok : ∀ a ∈ acts, ok a)
    (hrun : run step s acts = some t) : I t := by
  induction acts generalizing s with
  | nil =>
    rw [run_nil, Option.some.injEq] at hrun
    rwa [← hrun]
  | cons a rest ih =>
    obtain ⟨u, hu, hrest⟩ := Option.bind_eq_some_iff.mp hrun
    have hI : I u := hstep s a u (hok a List.mem_cons_self) hs hu
    exact ih hI (fun b hb => hok b (List.mem_cons_of_mem a hb)) hrest

theorem run_invariant {I : σ → Prop} (hstep : ∀ s a t, I s → step s a = some t → I t)
    {s t : σ} {acts : List α} (hs : I s) (hrun : run step s acts = some t) : I t :=
  run_invariant_of (fun s a t _ => hstep s a t) hs (fun _ _ => trivial) hrun

theorem run_relation {R : σ → σ → Prop} (hrefl : ∀ s, R s s)
    (htrans : ∀ s t u, R s t → R t u → R s u)
    (hstep : ∀ s a t, step s a = some t → R s t)
    {s t : σ} {acts : List α} (hrun : run step s acts = some t) : R s t := by
  induction acts generalizing s with
  | nil =>
    rw [run_nil, Option.some.injEq] at hrun
    rw [hrun]
    exact hrefl t
  | cons a rest ih =>
    obtain ⟨u, hu, hrest⟩ := Option.bind_eq_some_iff.mp hrun
    exact htrans s u t (hstep s a u hu) (ih hrest)

section Logs

/-! A log that each step leaves alone or extends by one entry. -/

variable {ε : Type*} {log : σ → List ε}

theorem run_log_prefix
    (hstep : ∀ s a t, step s a = some t → log t = log s ∨ ∃ e, log t = log s ++ [e])
    {s t : σ} {acts : List α} (hrun : run step s acts = some t) : log s <+: log t := by
  apply run_relation (R := fun s t => log s <+: log t) _ _ _ hrun
  · exact fun _ => List.prefix_rfl
  · exact fun _ _ _ => List.IsPrefix.trans
  · intro s a t h
    cases hstep s a t h with
    | inl hsame => rw [hsame]
    | inr hmore =>
      obtain ⟨e, he⟩ := hmore
      rw [he]
      exact List.prefix_append _ _

/-- An entry that a run has added was added by one of its steps, which splits
the run there. -/
theorem run_log_split
    (hstep : ∀ s a t, step s a = some t → log t = log s ∨ ∃ e, log t = log s ++ [e])
    {s t : σ} {acts : List α} (hrun : run step s acts = some t)
    {earlier later : List ε} {e : ε} (hlog : log t = earlier ++ e :: later)
    (hnew : (log s).length ≤ earlier.length) :
    ∃ first a second u v, acts = first ++ a :: second ∧ run step s first = some u ∧
      step u a = some v ∧ run step v second = some t ∧
      log u = earlier ∧ log v = earlier ++ [e] := by
  induction acts generalizing s with
  | nil =>
    rw [run_nil, Option.some.injEq] at hrun
    rw [hrun, hlog, List.length_append, List.length_cons] at hnew
    omega
  | cons a rest ih =>
    obtain ⟨u, hu, hrest⟩ := Option.bind_eq_some_iff.mp hrun
    by_cases hlater : (log u).length ≤ earlier.length
    · obtain ⟨first, b, second, v, w, hacts, hfirst, hb⟩ := ih hrest hlater
      refine ⟨a :: first, b, second, v, w, ?_, ?_, hb⟩
      · rw [hacts, List.cons_append]
      · rw [run_cons, hu, Option.bind_some, hfirst]
    · cases hstep s a u hu with
      | inl hsame =>
        rw [hsame] at hlater
        exact absurd hnew hlater
      | inr hmore =>
        obtain ⟨x, hx⟩ := hmore
        have hlength : (log s).length = earlier.length := by
          rw [hx, List.length_append, List.length_singleton] at hlater
          omega
        obtain ⟨tail, htail⟩ := run_log_prefix hstep hrest
        rw [hx, hlog, List.append_assoc] at htail
        obtain ⟨hearlier, hentry⟩ := List.append_inj htail hlength
        have hxe : x = e := (List.cons.inj hentry).1
        refine ⟨[], a, rest, s, u, rfl, rfl, hu, hrest, hearlier, ?_⟩
        rw [hx, hearlier, hxe]

end Logs

variable (step)

def EveryState (P : σ → Prop) (s : σ) : List α → Prop
  | [] => P s
  | a :: rest => P s ∧ ∀ t, step s a = some t → EveryState P t rest

def EveryStep (ok : σ → α → Prop) (s : σ) : List α → Prop
  | [] => True
  | a :: rest => ∀ t, step s a = some t → ok s a ∧ EveryStep ok t rest

variable {step}

theorem everyStep_cons {ok : σ → α → Prop} {s t : σ} {a : α} {rest : List α}
    (h : step s a = some t) :
    EveryStep step ok s (a :: rest) ↔ ok s a ∧ EveryStep step ok t rest := by
  simp only [EveryStep, h, Option.some.injEq, forall_eq']

instance EveryStep.decidable {ok : σ → α → Prop} [∀ s a, Decidable (ok s a)] :
    ∀ (s : σ) (acts : List α), Decidable (EveryStep step ok s acts)
  | _, [] => isTrue trivial
  | s, a :: rest =>
    match h : step s a with
    | none => isTrue fun _ ht => by cases h.symm.trans ht
    | some t =>
      have : Decidable (EveryStep step ok t rest) := EveryStep.decidable t rest
      decidable_of_iff (ok s a ∧ EveryStep step ok t rest) (everyStep_cons h).symm

theorem everyState_head {P : σ → Prop} {s : σ} {acts : List α}
    (h : EveryState step P s acts) : P s := by
  cases acts with
  | nil => exact h
  | cons a rest => exact h.1

theorem everyState_last {P : σ → Prop} {s t : σ} {acts : List α}
    (h : EveryState step P s acts) (hrun : run step s acts = some t) : P t := by
  induction acts generalizing s with
  | nil =>
    rw [run_nil, Option.some.injEq] at hrun
    rwa [← hrun]
  | cons a rest ih =>
    obtain ⟨u, hu, hrest⟩ := Option.bind_eq_some_iff.mp hrun
    exact ih (h.2 u hu) hrest

/-- If, under an invariant that holds while `P` does, a step keeps `P` exactly when it
is permitted, then a run keeps `P` throughout exactly when all its steps are permitted. -/
theorem everyState_iff_everyStep_of {I P : σ → Prop} {ok : σ → α → Prop}
    (inv_step : ∀ s a t, I s → P s → P t → step s a = some t → I t)
    (iff_step : ∀ s a t, I s → P s → step s a = some t → (P t ↔ ok s a))
    {s : σ} (hI : I s) (hP : P s) (acts : List α) :
    EveryState step P s acts ↔ EveryStep step ok s acts := by
  induction acts generalizing s with
  | nil => simp [EveryState, EveryStep, hP]
  | cons a rest ih =>
    simp only [EveryState, EveryStep, hP, true_and]
    refine forall₂_congr fun t ht => ?_
    have hkeep : P t ↔ ok s a := iff_step s a t hI hP ht
    refine ⟨fun h => ?_, fun h => ?_⟩
    · have hPt : P t := everyState_head h
      exact ⟨hkeep.mp hPt, (ih (inv_step s a t hI hP hPt ht) hPt).mp h⟩
    · have hPt : P t := hkeep.mpr h.1
      exact (ih (inv_step s a t hI hP hPt ht) hPt).mpr h.2

theorem everyState_iff_everyStep {I P : σ → Prop} {ok : σ → α → Prop}
    (inv_step : ∀ s a t, I s → step s a = some t → I t)
    (iff_step : ∀ s a t, I s → P s → step s a = some t → (P t ↔ ok s a))
    {s : σ} (hI : I s) (hP : P s) (acts : List α) :
    EveryState step P s acts ↔ EveryStep step ok s acts :=
  everyState_iff_everyStep_of (fun s a t hs _ _ => inv_step s a t hs) iff_step hI hP acts

/-- A second machine watches the labels of a run. As long as it goes on it is related
to the states, and the step on which it stops leaves a mark that no step removes. -/
theorem run_watched {τ : Type*} {watch : τ → α → Option τ} {R : σ → τ → Prop} {marked : σ → Prop}
    (watch_step : ∀ s p a t, R s p → step s a = some t →
      (∃ q, watch p a = some q ∧ R t q) ∨ watch p a = none ∧ marked t)
    (marked_step : ∀ s a t, marked s → step s a = some t → marked t)
    {s t : σ} {p : τ} {acts : List α} (hp : R s p) (hrun : run step s acts = some t) :
    (∃ q, run watch p acts = some q ∧ R t q) ∨ run watch p acts = none ∧ marked t := by
  induction acts generalizing s p with
  | nil =>
    rw [run_nil, Option.some.injEq] at hrun
    exact .inl ⟨p, rfl, hrun ▸ hp⟩
  | cons a rest ih =>
    obtain ⟨u, hu, hrest⟩ := Option.bind_eq_some_iff.mp hrun
    rw [run_cons]
    cases watch_step s p a u hp hu with
    | inl hgoes =>
      obtain ⟨q, hq, hrelated⟩ := hgoes
      rw [hq, Option.bind_some]
      exact ih hrelated hrest
    | inr hstops =>
      rw [hstops.1, Option.bind_none]
      exact .inr ⟨rfl, run_invariant marked_step hstops.2 hrest⟩

section Since

/-! A property that some steps establish and some others end. -/

variable (step)

/-- The run has a step of the first kind, and none of the second after it. -/
def Since (sets ends : σ → α → Prop) (s : σ) (acts : List α) : Prop :=
  ∃ earlier a later u v, acts = earlier ++ a :: later ∧ run step s earlier = some u ∧
    step u a = some v ∧ sets u a ∧ EveryStep step (fun t b => ¬ ends t b) v later

variable {step}

theorem since_cons {sets ends : σ → α → Prop} {s t : σ} {a : α} {rest : List α}
    (h : step s a = some t) :
    Since step sets ends s (a :: rest) ↔
      sets s a ∧ EveryStep step (fun u b => ¬ ends u b) t rest ∨
        Since step sets ends t rest := by
  constructor
  · rintro ⟨earlier, b, later, u, v, hsplit, hearlier, hb, hsets, hlater⟩
    cases earlier with
    | nil =>
      obtain ⟨hab, hrest⟩ := List.cons.inj hsplit
      rw [run_nil, Option.some.injEq] at hearlier
      rw [← hearlier, ← hab] at hsets
      rw [← hearlier, ← hab, h, Option.some.injEq] at hb
      rw [hrest, hb]
      exact .inl ⟨hsets, hlater⟩
    | cons c earlier =>
      obtain ⟨hac, hrest⟩ := List.cons.inj hsplit
      rw [← hac, run_cons, h, Option.bind_some] at hearlier
      exact .inr ⟨earlier, b, later, u, v, hrest, hearlier, hb, hsets, hlater⟩
  · rintro (⟨hsets, hrest⟩ | ⟨earlier, b, later, u, v, hsplit, hearlier, hb⟩)
    · exact ⟨[], a, rest, s, t, rfl, rfl, h, hsets, hrest⟩
    · refine ⟨a :: earlier, b, later, u, v, by rw [hsplit, List.cons_append], ?_, hb⟩
      rw [run_cons, h, Option.bind_some, hearlier]

/-- What a step establishes, or keeps unless it ends it, holds after a run exactly
since such a step, or since the start. -/
theorem holds_iff_since {I P : σ → Prop} {sets ends : σ → α → Prop}
    (inv_step : ∀ s a t, I s → step s a = some t → I t)
    (iff_step : ∀ s a t, I s → step s a = some t → (P t ↔ sets s a ∨ P s ∧ ¬ ends s a))
    {s t : σ} {acts : List α} (hI : I s) (hrun : run step s acts = some t) :
    P t ↔ Since step sets ends s acts ∨ P s ∧ EveryStep step (fun u b => ¬ ends u b) s acts := by
  induction acts generalizing s with
  | nil =>
    rw [run_nil, Option.some.injEq] at hrun
    have hnone : ¬ Since step sets ends s [] := by
      rintro ⟨earlier, a, later, _, _, hsplit, _⟩
      exact List.append_ne_nil_of_right_ne_nil _ (List.cons_ne_nil _ _) hsplit.symm
    rw [← hrun]
    simp [hnone, EveryStep]
  | cons a rest ih =>
    obtain ⟨u, hu, hrest⟩ := Option.bind_eq_some_iff.mp hrun
    rw [ih (inv_step s a u hI hu) hrest, since_cons hu, everyStep_cons hu, iff_step s a u hI hu]
    tauto

end Since

section Leads

/-! Where a run of permitted labels can lead. -/

variable (step)

def Leads (ok : α → Prop) (s t : σ) : Prop :=
  ∃ acts, run step s acts = some t ∧ ∀ a ∈ acts, ok a

variable {step} {ok : α → Prop}

theorem Leads.refl (s : σ) : Leads step ok s s := ⟨[], rfl, fun _ ha => absurd ha List.not_mem_nil⟩

theorem Leads.trans {s t u : σ} (h : Leads step ok s t) (h' : Leads step ok t u) :
    Leads step ok s u := by
  obtain ⟨first, hfirst, hallowed⟩ := h
  obtain ⟨second, hsecond, hallowed'⟩ := h'
  refine ⟨first ++ second, by rw [run_append, hfirst, Option.bind_some, hsecond], fun a ha => ?_⟩
  exact (List.mem_append.mp ha).elim (hallowed a) (hallowed' a)

end Leads

section Total

/-! The same for a step that is always enabled: its runs are folds. -/

variable (f : σ → α → σ)

def Throughout (ok : σ → α → Prop) (s : σ) (acts : List α) : Prop :=
  ∀ earlier a later, acts = earlier ++ a :: later → ok (earlier.foldl f s) a

variable {f}

theorem throughout_nil {ok : σ → α → Prop} {s : σ} : Throughout f ok s [] :=
  fun _ _ _ hsplit =>
    absurd hsplit.symm (List.append_ne_nil_of_right_ne_nil _ (List.cons_ne_nil _ _))

theorem throughout_cons {ok : σ → α → Prop} {s : σ} {a : α} {rest : List α} :
    Throughout f ok s (a :: rest) ↔ ok s a ∧ Throughout f ok (f s a) rest := by
  constructor
  · intro h
    refine ⟨h [] a rest rfl, fun earlier b later hsplit => ?_⟩
    exact h (a :: earlier) b later (by rw [hsplit, List.cons_append])
  · intro h earlier b later hsplit
    cases earlier with
    | nil =>
      rw [List.nil_append, List.cons.injEq] at hsplit
      rw [← hsplit.1]
      exact h.1
    | cons c earlier =>
      rw [List.cons_append, List.cons.injEq] at hsplit
      rw [← hsplit.1]
      exact h.2 earlier b later hsplit.2

theorem foldl_invariant {I : σ → Prop} {ok : σ → α → Prop}
    (hstep : ∀ s a, ok s a → I s → I (f s a)) {s : σ} {acts : List α} (hs : I s)
    (hok : Throughout f ok s acts) : I (acts.foldl f s) := by
  induction acts generalizing s with
  | nil => exact hs
  | cons a rest ih =>
    obtain ⟨ha, hrest⟩ := throughout_cons.mp hok
    exact ih (hstep s a ha hs) hrest

end Total

end Cherum.ActionRuns
