/-! Finite sets as strictly ascending lists. Two sets with the same members are the same list, so
equality of sets is equality of their listings. -/
namespace MethodFlow

structure SortedSet (α : Type) [Ord α] where
  toList : List α
  ascending : toList.Pairwise fun a b => compare a b = .lt

namespace SortedSet

variable {α : Type} [Ord α]

/-- Puts an element at its place in an ascending list; an equal element stays as it is. -/
def place (a : α) : List α → List α
  | [] => [a]
  | b :: rest =>
    match compare a b with
    | .lt => a :: b :: rest
    | .eq => b :: rest
    | .gt => b :: place a rest

theorem mem_place {a x : α} {list : List α} (member : x ∈ place a list) : x = a ∨ x ∈ list := by
  induction list with
  | nil => simpa [place] using member
  | cons b rest ih =>
    simp only [place] at member
    split at member
    · simpa using member
    · exact Or.inr member
    · rcases List.mem_cons.mp member with h | h
      · exact Or.inr (List.mem_cons.mpr (Or.inl h))
      · rcases ih h with h | h
        · exact Or.inl h
        · exact Or.inr (List.mem_cons.mpr (Or.inr h))

theorem place_ascending [Std.TransOrd α] (a : α) {list : List α}
    (ascending : list.Pairwise fun a b => compare a b = .lt) :
    (place a list).Pairwise fun a b => compare a b = .lt := by
  induction list with
  | nil => simp [place]
  | cons b rest ih =>
    rw [List.pairwise_cons] at ascending
    simp only [place]
    split
    · rename_i below
      refine List.pairwise_cons.mpr ⟨?_, List.pairwise_cons.mpr ascending⟩
      intro x member
      rcases List.mem_cons.mp member with h | h
      · exact h ▸ below
      · exact Std.TransCmp.lt_trans below (ascending.1 x h)
    · exact List.pairwise_cons.mpr ascending
    · rename_i above
      refine List.pairwise_cons.mpr ⟨?_, ih ascending.2⟩
      intro x member
      rcases mem_place member with h | h
      · rw [h, Std.OrientedOrd.eq_swap, above]
        rfl
      · exact ascending.1 x h

def empty : SortedSet α := ⟨[], List.Pairwise.nil⟩

def singleton (a : α) : SortedSet α := ⟨[a], by simp⟩

def insert [Std.TransOrd α] (set : SortedSet α) (a : α) : SortedSet α :=
  ⟨place a set.toList, place_ascending a set.ascending⟩

def ofList [Std.TransOrd α] (list : List α) : SortedSet α := list.foldl insert empty

def filter (keep : α → Bool) (set : SortedSet α) : SortedSet α :=
  ⟨set.toList.filter keep, set.ascending.filter keep⟩

def size (set : SortedSet α) : Nat := set.toList.length

def isEmpty (set : SortedSet α) : Bool := set.toList.isEmpty

def contains (set : SortedSet α) (a : α) : Bool := set.toList.any fun b => compare a b == .eq

def subset (a b : SortedSet α) : Bool := a.toList.all b.contains

def union [Std.TransOrd α] (a b : SortedSet α) : SortedSet α := b.toList.foldl insert a

def inter (a b : SortedSet α) : SortedSet α := a.filter b.contains

def diff (a b : SortedSet α) : SortedSet α := a.filter fun x => !b.contains x

instance [DecidableEq α] : DecidableEq (SortedSet α) := fun a b =>
  decidable_of_iff (a.toList = b.toList)
    ⟨fun h => by cases a; cases b; cases h; rfl, fun h => h ▸ rfl⟩

end SortedSet

end MethodFlow
