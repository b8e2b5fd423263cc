import Mathlib

/-! Greedy selection from a list: the first entry is kept, everything it drops
is discarded, and the rest is treated likewise. What is kept is independent and
covers the list; the relation may be replaced by a smaller one exactly when the
larger one drops nothing that the smaller one keeps. -/

namespace Cherum.GreedySelection

variable {α : Type*}

/-- What an entry leaves of the entries after it. -/
def remaining (drops : α → α → Bool) (a : α) (rest : List α) : List α :=
  rest.filter fun b => !drops a b

def greedy (drops : α → α → Bool) : List α → List α
  | [] => []
  | a :: rest => a :: greedy drops (remaining drops a rest)
termination_by l => l.length
decreasing_by exact Nat.lt_succ_of_le (List.length_filter_le _ _)

variable {drops : α → α → Bool}

@[simp] theorem greedy_nil : greedy drops [] = [] := by rw [greedy]

theorem greedy_cons (a : α) (rest : List α) :
    greedy drops (a :: rest) = a :: greedy drops (remaining drops a rest) := by
  rw [greedy]

theorem mem_remaining {a b : α} {rest : List α} :
    b ∈ remaining drops a rest ↔ b ∈ rest ∧ drops a b = false := by
  simp [remaining]

theorem remaining_sublist (a : α) (rest : List α) : (remaining drops a rest).Sublist rest :=
  List.filter_sublist

theorem greedy_sublist (l : List α) : (greedy drops l).Sublist l := by
  induction l using greedy.induct drops with
  | case1 => rw [greedy_nil]
  | case2 a rest ih =>
    rw [greedy_cons]
    exact (ih.trans (remaining_sublist a rest)).cons_cons a

theorem greedy_pairwise (l : List α) : (greedy drops l).Pairwise fun a b => drops a b = false := by
  induction l using greedy.induct drops with
  | case1 =>
    rw [greedy_nil]
    exact .nil
  | case2 a rest ih =>
    rw [greedy_cons]
    exact .cons (fun b hb => (mem_remaining.mp ((greedy_sublist _).subset hb)).2) ih

theorem greedy_covers {R : α → α → Prop} {l : List α} (hl : l.Pairwise R) {b : α} (hb : b ∈ l) :
    b ∈ greedy drops l ∨ ∃ a ∈ greedy drops l, R a b ∧ drops a b = true := by
  induction l using greedy.induct drops with
  | case1 => cases hb
  | case2 a rest ih =>
    rw [greedy_cons]
    obtain ⟨hfirst, hrest⟩ := List.pairwise_cons.mp hl
    cases List.mem_cons.mp hb with
    | inl h =>
      rw [h]
      exact .inl List.mem_cons_self
    | inr h =>
      cases hdrop : drops a b with
      | true => exact .inr ⟨a, List.mem_cons_self, hfirst b h, hdrop⟩
      | false =>
        have hleft : b ∈ remaining drops a rest := mem_remaining.mpr ⟨h, hdrop⟩
        rcases ih (hrest.sublist (remaining_sublist a rest)) hleft with hkept | ⟨c, hc, hcover⟩
        · exact .inl (List.mem_cons_of_mem a hkept)
        · exact .inr ⟨c, List.mem_cons_of_mem a hc, hcover⟩

theorem remaining_filter (a : α) (rest : List α) (p : α → Bool) :
    remaining drops a (rest.filter p) = (remaining drops a rest).filter p := by
  unfold remaining
  rw [List.filter_filter, List.filter_filter]
  exact List.filter_congr fun b _ => Bool.and_comm _ _

theorem greedy_filter {l : List α} {p : α → Bool} (h : ∀ a ∈ greedy drops l, p a = true) :
    greedy drops (l.filter p) = greedy drops l := by
  induction l using greedy.induct drops with
  | case1 => rfl
  | case2 a rest ih =>
    rw [greedy_cons] at h ⊢
    obtain ⟨hfirst, hrest⟩ := List.forall_mem_cons.mp h
    rw [List.filter_cons_of_pos hfirst, greedy_cons, remaining_filter, ih hrest]

section Compare

variable {drops' : α → α → Bool}

theorem remaining_of_more {a : α} {rest : List α}
    (hmore : ∀ b ∈ rest, drops a b = true → drops' a b = true) :
    remaining drops' a rest = (remaining drops a rest).filter fun b => !drops' a b := by
  unfold remaining
  rw [List.filter_filter]
  refine List.filter_congr fun b hb => ?_
  have hab := hmore b hb
  cases hdrop : drops a b with
  | true => simp [hab hdrop]
  | false => simp

/-- A relation that drops more selects the same exactly when it drops none of
what the other keeps. -/
theorem greedy_eq_iff {l : List α}
    (hmore : ∀ a ∈ l, ∀ b ∈ l, drops a b = true → drops' a b = true) :
    greedy drops' l = greedy drops l ↔
      (greedy drops l).Pairwise fun a b => drops' a b = false := by
  refine ⟨fun h => h ▸ greedy_pairwise l, fun h => ?_⟩
  induction l using greedy.induct drops' with
  | case1 => rw [greedy_nil, greedy_nil]
  | case2 a rest ih =>
    rw [greedy_cons] at h
    obtain ⟨hfirst, hrest⟩ := List.pairwise_cons.mp h
    have hsame : greedy drops (remaining drops' a rest) = greedy drops (remaining drops a rest) := by
      rw [remaining_of_more fun b hb => hmore a List.mem_cons_self b (List.mem_cons_of_mem a hb)]
      exact greedy_filter fun b hb => by simp [hfirst b hb]
    have hsub : ∀ b ∈ remaining drops' a rest, b ∈ a :: rest :=
      fun b hb => List.mem_cons_of_mem a (mem_remaining.mp hb).1
    rw [← hsame] at hrest
    rw [greedy_cons, greedy_cons, ← hsame,
      ih (fun b hb c hc => hmore b (hsub b hb) c (hsub c hc)) hrest]

end Compare

/-- Where no two entries rank alike, the selection is the only independent
sublist in which each entry of the list has one to drop it that ranks no lower. -/
theorem eq_greedy {κ : Type*} [LinearOrder κ] {rank : α → κ} {l kept : List α}
    (hrank : l.Pairwise fun a b => rank b < rank a) (hsub : kept.Sublist l)
    (hindependent : kept.Pairwise fun a b => drops a b = false)
    (hcover : ∀ b ∈ l, ∃ k ∈ kept, rank b ≤ rank k ∧ drops k b = true) :
    kept = greedy drops l := by
  induction l using greedy.induct drops generalizing kept with
  | case1 => rw [List.sublist_nil.mp hsub, greedy_nil]
  | case2 a rest ih =>
    obtain ⟨hfirst, hrest⟩ := List.pairwise_cons.mp hrank
    have hmem : a ∈ kept := by
      obtain ⟨k, hk, hle, _⟩ := hcover a List.mem_cons_self
      cases List.mem_cons.mp (hsub.subset hk) with
      | inl h => rwa [← h]
      | inr h => exact absurd hle (not_le.mpr (hfirst k h))
    rcases List.sublist_cons_iff.mp hsub with hsub | ⟨others, hkept, hsub⟩
    · exact absurd (hfirst a (hsub.subset hmem)) (lt_irrefl _)
    · rw [hkept] at hindependent hcover ⊢
      obtain ⟨hothers, hpairwise⟩ := List.pairwise_cons.mp hindependent
      have hleft : others.Sublist (remaining drops a rest) := by
        have hall : others.filter (fun b => !drops a b) = others :=
          List.filter_eq_self.mpr fun b hb => by simp [hothers b hb]
        rw [← hall]
        exact hsub.filter _
      rw [greedy_cons]
      refine congrArg _ (ih (hrest.sublist (remaining_sublist a rest)) hleft hpairwise ?_)
      intro b hb
      obtain ⟨hb, hkeep⟩ := mem_remaining.mp hb
      obtain ⟨k, hk, hle, hdrop⟩ := hcover b (List.mem_cons_of_mem a hb)
      cases List.mem_cons.mp hk with
      | inl h =>
        rw [h, hkeep] at hdrop
        cases hdrop
      | inr h => exact ⟨k, h, hle, hdrop⟩

end Cherum.GreedySelection
