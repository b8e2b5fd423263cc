import Mathlib

/-! What a channel is for: everything sent arrives, once and in order. The
content is seen from outside, as what was sent, what is still on its way and
what has been delivered; how the content is held on the way is left open. A
concrete channel is related to this one step by step: each of its steps is a
`Move` here, or it is a `Loss`. -/

namespace Cherum.OrderedChannel

structure Channel (β : Type*) where
  sent : List β
  pending : List β
  delivered : List β

variable {β : Type*}

/-- Nothing was dropped, duplicated or reordered so far. -/
def Channel.Intact (c : Channel β) : Prop := c.delivered ++ c.pending = c.sent

instance [DecidableEq β] (c : Channel β) : Decidable c.Intact :=
  inferInstanceAs (Decidable (c.delivered ++ c.pending = c.sent))

inductive Move : Channel β → Channel β → Prop
  | stay (c : Channel β) : Move c c
  | send (c : Channel β) (xs : List β) :
      Move c ⟨c.sent ++ xs, c.pending ++ xs, c.delivered⟩
  | deliver (sent delivered xs rest : List β) :
      Move ⟨sent, xs ++ rest, delivered⟩ ⟨sent, rest, delivered ++ xs⟩

structure Loss (c d : Channel β) : Prop where
  same_sent : d.sent = c.sent
  shorter : (d.delivered ++ d.pending).length < (c.delivered ++ c.pending).length

/-- Nothing was invented, repeated or reordered, though some may be lost. -/
def Channel.Faithful (c : Channel β) : Prop := (c.delivered ++ c.pending).Sublist c.sent

structure Drop (c d : Channel β) : Prop where
  same_sent : d.sent = c.sent
  same_delivered : d.delivered = c.delivered
  kept : d.pending.Sublist c.pending

theorem Move.intact {c d : Channel β} (h : Move c d) (hc : c.Intact) : d.Intact := by
  cases h with
  | stay => exact hc
  | send xs =>
    unfold Channel.Intact at hc ⊢
    rw [← hc, List.append_assoc]
  | deliver sent delivered xs rest =>
    unfold Channel.Intact at hc ⊢
    rw [← hc, List.append_assoc]

theorem Loss.not_intact {c d : Channel β} (h : Loss c d) (hc : c.Intact) : ¬ d.Intact := by
  intro hd
  have hlt := h.shorter
  rw [hc, hd, h.same_sent] at hlt
  exact absurd hlt (Nat.lt_irrefl _)

theorem Move.faithful {c d : Channel β} (h : Move c d) (hc : c.Faithful) : d.Faithful := by
  unfold Channel.Faithful at hc ⊢
  cases h with
  | stay => exact hc
  | send _ xs =>
    rw [← List.append_assoc]
    exact hc.append (.refl xs)
  | deliver sent delivered xs rest =>
    rw [List.append_assoc]
    exact hc

theorem Drop.faithful {c d : Channel β} (h : Drop c d) (hc : c.Faithful) : d.Faithful := by
  unfold Channel.Faithful at hc ⊢
  rw [h.same_sent, h.same_delivered]
  exact ((List.Sublist.refl _).append h.kept).trans hc

/-- A step that moves content when permitted and loses some when not keeps the
channel intact exactly when it is permitted. -/
theorem intact_iff {c d : Channel β} {ok : Prop} (h : ok ∧ Move c d ∨ ¬ ok ∧ Loss c d)
    (hc : c.Intact) : d.Intact ↔ ok := by
  cases h with
  | inl h => exact iff_of_true (h.2.intact hc) h.1
  | inr h => exact iff_of_false (h.2.not_intact hc) h.1

end Cherum.OrderedChannel
