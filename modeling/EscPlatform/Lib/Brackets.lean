-- Words of brackets and the forests that they spell. A builder keeps the
-- trees that are closed and the nodes that are still open, and each of its
-- steps adds one token to the word that it spells.
import Mathlib.Data.List.Basic

namespace bracketed

variable {β α : Type}

/-! ## Trees and tokens -/

/-- A tree with labels of one type at its nodes and of another at its leaves. -/
inductive Tree (β α : Type)
  | leaf (a : α)
  | node (b : β) (trees : List (Tree β α))

inductive Token (β α : Type)
  | leaf (a : α)
  | enter (b : β)
  | leave
  deriving DecidableEq, Repr

mutual

/-- The word of a tree. -/
def tokens : Tree β α → List (Token β α)
  | .leaf a => [.leaf a]
  | .node b trees => .enter b :: (tokensAll trees ++ [.leave])

def tokensAll : List (Tree β α) → List (Token β α)
  | [] => []
  | t :: ts => tokens t ++ tokensAll ts

end

theorem tokensAll_append (xs ys : List (Tree β α)) :
    tokensAll (xs ++ ys) = tokensAll xs ++ tokensAll ys := by
  induction xs with
  | nil => rfl
  | cons t ts ih => rw [List.cons_append, tokensAll, tokensAll, ih, List.append_assoc]

mutual

/-- Every leaf of the tree meets `P`. -/
def Tree.AllLeaves (P : α → Prop) : Tree β α → Prop
  | .leaf a => P a
  | .node _ trees => AllLeavesIn P trees

def AllLeavesIn (P : α → Prop) : List (Tree β α) → Prop
  | [] => True
  | t :: ts => t.AllLeaves P ∧ AllLeavesIn P ts

end

mutual

/-- The leaves of a tree, from the front. -/
def Tree.leaves : Tree β α → List α
  | .leaf a => [a]
  | .node _ trees => leavesIn trees

def leavesIn : List (Tree β α) → List α
  | [] => []
  | t :: ts => t.leaves ++ leavesIn ts

end

/-! ## The builder -/

/-- The closed trees of the innermost level, and the open nodes from there outwards, each with its
label and the trees in front of it. -/
structure Builder (β α : Type) where
  trees : List (Tree β α) := []
  outer : List (β × List (Tree β α)) := []

def Builder.leaf (B : Builder β α) (a : α) : Builder β α :=
  { B with trees := B.trees ++ [.leaf a] }

def Builder.enter (B : Builder β α) (b : β) : Builder β α := ⟨[], (b, B.trees) :: B.outer⟩

/-- Closes the innermost node, `none` where no node is open. -/
def Builder.leave (B : Builder β α) : Option (Builder β α) :=
  match B.outer with
  | [] => none
  | (b, before) :: outer => some ⟨before ++ [.node b B.trees], outer⟩

/-! ## The word of a builder -/

/-- The word in front of the innermost level. -/
def openTokens : List (β × List (Tree β α)) → List (Token β α)
  | [] => []
  | (b, before) :: outer => openTokens outer ++ tokensAll before ++ [.enter b]

def Builder.word (B : Builder β α) : List (Token β α) := openTokens B.outer ++ tokensAll B.trees

variable {B B' : Builder β α}

@[simp] theorem word_leaf (B : Builder β α) (a : α) : (B.leaf a).word = B.word ++ [.leaf a] := by
  simp [Builder.word, Builder.leaf, tokensAll_append, tokensAll, tokens]

@[simp] theorem word_enter (B : Builder β α) (b : β) :
    (B.enter b).word = B.word ++ [.enter b] := by
  simp [Builder.word, Builder.enter, openTokens, tokensAll]

theorem word_leave (h : B.leave = some B') : B'.word = B.word ++ [.leave] := by
  obtain ⟨trees, outer⟩ := B
  cases outer with
  | nil => cases h
  | cons frame outer =>
    obtain ⟨b, before⟩ := frame
    cases h
    simp [Builder.word, openTokens, tokensAll_append, tokensAll, tokens]

end bracketed
