import CommandGrammar.Command

/-!
# Ranking commands

Two orders decide between commands.  *Precedence* compares what was declared: priorities, where
both commands have one and they differ, and then the low-priority mark.  *Specificity* compares
the chains: more nodes come first, then a required last node, then that node's own precedence.
The rank is precedence and then specificity; `lt` means that the first command ranks higher.
-/

set_option autoImplicit false

namespace CommandGrammar.Command

variable {α : Type}

/-- Compares what was declared. -/
def precedence (a b : Command α) : Ordering :=
  let marks := compare a.metadata.lowPriority.toNat b.metadata.lowPriority.toNat
  match a.metadata.priority, b.metadata.priority with
  | some p, some q => (compare p q).then marks
  | _, _ => marks

/-- Compares the last nodes that are matched by place. -/
def lastNodeOrder (a b : Command α) : Ordering :=
  match a.lastPositional?, b.lastPositional? with
  | some m, some n => (compare m.isOptional.toNat n.isOptional.toNat).then (m.precedence n)
  | _, _ => .eq

/-- Compares the chains. -/
def specificity (a b : Command α) : Ordering :=
  (compare b.size a.size).then (lastNodeOrder a b)

/-- The static rank. -/
def rank (a b : Command α) : Ordering := (precedence a b).then (specificity a b)

theorem precedence_self (a : Command α) : precedence a a = .eq := by
  unfold precedence
  cases a.metadata.priority <;> simp [Ordering.then]

end CommandGrammar.Command
