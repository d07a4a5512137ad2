/-
What the operations on queues do to the chain of their arrows: adding an arrow at either end adds it
at that end of the chain, the length counts the chain's arrows, and it does not matter who else holds
the queue.
-/
import StackLang.Queue.Basic

namespace StackLang

variable {F : Type → Type → Type 1} {A B C D : Type}

namespace Chain

@[simp] theorem append_nil (c : Chain F A B) : c.append .nil = c := by
  induction c with
  | nil => rfl
  | cons f c ih => simp only [append, ih]

theorem append_assoc (c : Chain F A B) (d : Chain F B C) (e : Chain F C D) :
    (c.append d).append e = c.append (d.append e) := by
  induction c with
  | nil => rfl
  | cons f c ih => simp only [append, ih]

@[simp] theorem length_append (c : Chain F A B) (d : Chain F B C) :
    (c.append d).length = c.length + d.length := by
  induction c with
  | nil => simp only [append, length, Nat.zero_add]
  | cons f c ih => simp only [append, length, ih]; omega

theorem lengthFrom_eq (n : Nat) (c : Chain F A B) : c.lengthFrom n = n + c.length := by
  induction c generalizing n with
  | nil => rfl
  | cons f c ih => simp only [lengthFrom, length, ih]; omega

theorem missing_eq (n : Nat) (c : Chain F A B) : c.missing n = n - c.length := by
  induction c generalizing n with
  | nil => cases n <;> rfl
  | cons f c ih =>
    cases n with
    | zero => simp only [missing, Nat.zero_sub]
    | succ n => simp only [missing, length, ih]; omega

end Chain

namespace Rear

theorem toChain_append (r : Rear F B A) (c : Chain F B C) (d : Chain F C D) :
    (r.toChain c).append d = r.toChain (c.append d) := by
  induction r generalizing C with
  | nil => rfl
  | snoc r f ih => simp only [toChain, ih, Chain.append]

theorem length_toChain (r : Rear F B A) (c : Chain F B C) :
    (r.toChain c).length = r.lengthFrom c.length := by
  induction r generalizing C with
  | nil => rfl
  | snoc r f ih => simp only [toChain, lengthFrom, ih, Chain.length]

theorem lengthFrom_eq (n : Nat) (r : Rear F B A) : r.lengthFrom n = n + r.lengthFrom 0 := by
  induction r generalizing n with
  | nil => rfl
  | snoc r f ih => simp only [lengthFrom]; rw [ih (n + 1), ih 1]; omega

theorem missing_eq (n : Nat) (r : Rear F B A) : r.missing n = n - r.lengthFrom 0 := by
  induction r generalizing n with
  | nil => cases n <;> rfl
  | snoc r f ih =>
    cases n with
    | zero => simp only [missing, Nat.zero_sub]
    | succ n => simp only [missing, lengthFrom, ih]; rw [lengthFrom_eq 1]; omega

end Rear

namespace Queue

@[simp] theorem toChain_empty : (empty : Queue F A A).toChain = .nil := rfl

@[simp] theorem toChain_held (hold : Hold) (q : Queue F A B) : (q.held hold).toChain = q.toChain := by
  cases q with
  | mk h front rear => rfl

@[simp] theorem toChain_pushBack (q : Queue F A B) (f : F B C) :
    (q.pushBack f).toChain = q.toChain.append (.cons f .nil) := by
  cases q with
  | mk hold front rear =>
    simp only [pushBack, toChain, Rear.toChain, Chain.append_assoc, Rear.toChain_append, Chain.append]

@[simp] theorem toChain_pushFront (f : F A B) (q : Queue F B C) :
    (q.pushFront f).toChain = .cons f q.toChain := by
  cases q with
  | mk hold front rear => rfl

theorem length_toChain (q : Queue F A B) : q.toChain.length = q.length := by
  cases q with
  | mk hold front rear =>
    simp only [toChain, length, Chain.length_append, Rear.length_toChain, Chain.length]
    rw [Chain.lengthFrom_eq, Nat.zero_add, Rear.lengthFrom_eq front.length]

theorem isShorter_iff (n : Nat) (q : Queue F A B) : q.isShorter n = true ↔ q.length < n := by
  cases q with
  | mk hold front rear =>
    have hrear := Rear.lengthFrom_eq (0 + front.length) rear
    rw [isShorter, length, decide_eq_true_iff, Rear.missing_eq, Chain.missing_eq, Chain.lengthFrom_eq]
    omega

end Queue

end StackLang
