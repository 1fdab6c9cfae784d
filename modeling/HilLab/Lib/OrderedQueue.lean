import Mathlib.Data.List.Pairwise
import Mathlib.Order.Lattice

namespace HilLab.Lib.OrderedQueue

variable {α τ : Type} [LinearOrder τ] (key : α → τ) (capacity : Nat)

/-- A queue has room for an entry that does not go back before its newest one. -/
def accepts (q : List α) (a : α) : Bool :=
  decide (q.length < capacity) && q.getLast?.all (fun b => decide (key b ≤ key a))

structure Input (α : Type) where
  clear : Bool
  push : Option α
  pop : Bool

def accepted (q : List α) (i : Input α) : List α := (i.push.filter (accepts key capacity q)).toList

def kept (q : List α) (i : Input α) : List α := if i.pop then q.tail else q

/-- A queue of at most capacity entries in the order of their keys. A push and a pop of
the same step both look at the queue before it. -/
def step (q : List α) (i : Input α) : List α :=
  if i.clear then [] else kept q i ++ accepted key capacity q i

def Ordered (q : List α) : Prop := q.Pairwise (fun a b => key a ≤ key b)

variable {key capacity} {q : List α} {i : Input α}

theorem kept_sublist (q : List α) (i : Input α) : (kept q i).Sublist q := by
  rw [kept]
  split_ifs
  · exact List.tail_sublist q
  · exact List.Sublist.refl q

variable (key capacity q i) in
theorem accepted_cases :
    accepted key capacity q i = [] ∨
      ∃ a, accepted key capacity q i = [a] ∧ accepts key capacity q a = true := by
  rw [accepted]
  cases hpush : i.push with
  | none => exact .inl rfl
  | some a =>
      cases haccepts : accepts key capacity q a with
      | false =>
          rw [Option.filter_some_neg haccepts]
          exact .inl rfl
      | true =>
          rw [Option.filter_some_pos haccepts]
          exact .inr ⟨a, rfl, haccepts⟩

theorem length_step (h : q.length ≤ capacity) : (step key capacity q i).length ≤ capacity := by
  have hkept := (kept_sublist q i).length_le
  rw [step]
  split_ifs with hclear
  · exact Nat.zero_le _
  · rw [List.length_append]
    rcases accepted_cases key capacity q i with hnone | ⟨a, hone, haccepts⟩
    · rw [hnone, List.length_nil]
      omega
    · rw [accepts, Bool.and_eq_true, decide_eq_true_iff] at haccepts
      rw [hone, List.length_singleton]
      omega

theorem le_of_accepts (h : Ordered key q) {a b : α} (ha : accepts key capacity q a = true)
    (hb : b ∈ q) : key b ≤ key a := by
  rw [accepts, Bool.and_eq_true] at ha
  rcases List.eq_nil_or_concat q with rfl | ⟨front, newest, rfl⟩
  · cases hb
  · rw [List.concat_eq_append] at h hb ha
    rw [List.getLast?_concat, Option.all_some] at ha
    have hlast : key newest ≤ key a := of_decide_eq_true ha.2
    rcases List.mem_append.mp hb with hfront | hnewest
    · have hle := (List.pairwise_append.mp h).2.2 b hfront newest (List.mem_singleton_self newest)
      exact le_trans hle hlast
    · rw [List.mem_singleton.mp hnewest]
      exact hlast

theorem ordered_step (h : Ordered key q) : Ordered key (step key capacity q i) := by
  have hkept := kept_sublist q i
  rw [step]
  split_ifs with hclear
  · exact List.Pairwise.nil
  · rw [Ordered, List.pairwise_append]
    refine ⟨h.sublist hkept, ?_, fun b hb a ha => ?_⟩
    · rcases accepted_cases key capacity q i with hnone | ⟨a, hone, -⟩
      · rw [hnone]
        exact List.Pairwise.nil
      · rw [hone]
        exact List.pairwise_singleton _ a
    · rcases accepted_cases key capacity q i with hnone | ⟨a', hone, haccepts⟩
      · rw [hnone] at ha
        cases ha
      · rw [hone, List.mem_singleton] at ha
        rw [ha]
        exact le_of_accepts h haccepts (hkept.subset hb)

end HilLab.Lib.OrderedQueue
