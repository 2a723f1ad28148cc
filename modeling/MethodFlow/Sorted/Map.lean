/-! Finite maps as lists of entries with strictly ascending keys. Two maps that give every key the
same value are the same list. -/
namespace MethodFlow

structure SortedMap (κ ν : Type) [Ord κ] where
  entries : List (κ × ν)
  ascending : entries.Pairwise fun a b => compare a.1 b.1 = .lt

namespace SortedMap

variable {κ ν : Type} [Ord κ]

/-- Puts an entry at its place in a list with ascending keys, in place of one with the same key. -/
def place (key : κ) (value : ν) : List (κ × ν) → List (κ × ν)
  | [] => [(key, value)]
  | entry :: rest =>
    match compare key entry.1 with
    | .lt => (key, value) :: entry :: rest
    | .eq => (key, value) :: rest
    | .gt => entry :: place key value rest

theorem mem_place {key : κ} {value : ν} {entry : κ × ν} {list : List (κ × ν)}
    (member : entry ∈ place key value list) : entry = (key, value) ∨ entry ∈ list := by
  induction list with
  | nil => simpa [place] using member
  | cons head rest ih =>
    simp only [place] at member
    split at member
    · simpa using member
    · rcases List.mem_cons.mp member with h | h
      · exact Or.inl h
      · exact Or.inr (List.mem_cons.mpr (Or.inr h))
    · rcases List.mem_cons.mp member with h | h
      · exact Or.inr (List.mem_cons.mpr (Or.inl h))
      · rcases ih h with h | h
        · exact Or.inl h
        · exact Or.inr (List.mem_cons.mpr (Or.inr h))

theorem place_ascending [Std.TransOrd κ] (key : κ) (value : ν) {list : List (κ × ν)}
    (ascending : list.Pairwise fun a b => compare a.1 b.1 = .lt) :
    (place key value list).Pairwise fun a b => compare a.1 b.1 = .lt := by
  induction list with
  | nil => simp [place]
  | cons head rest ih =>
    rw [List.pairwise_cons] at ascending
    simp only [place]
    split
    · rename_i below
      refine List.pairwise_cons.mpr ⟨?_, List.pairwise_cons.mpr ascending⟩
      intro entry member
      rcases List.mem_cons.mp member with h | h
      · exact h ▸ below
      · exact Std.TransCmp.lt_trans below (ascending.1 entry h)
    · rename_i same
      refine List.pairwise_cons.mpr ⟨?_, ascending.2⟩
      intro entry member
      exact Std.TransCmp.lt_of_eq_of_lt same (ascending.1 entry member)
    · rename_i above
      refine List.pairwise_cons.mpr ⟨?_, ih ascending.2⟩
      intro entry member
      rcases mem_place member with h | h
      · rw [h, Std.OrientedOrd.eq_swap, above]
        rfl
      · exact ascending.1 entry h

def empty : SortedMap κ ν := ⟨[], List.Pairwise.nil⟩

def keys (map : SortedMap κ ν) : List κ := map.entries.map Prod.fst

def get? (map : SortedMap κ ν) (key : κ) : Option ν :=
  (map.entries.find? fun entry => compare key entry.1 == .eq).map Prod.snd

def insert [Std.TransOrd κ] (map : SortedMap κ ν) (key : κ) (value : ν) : SortedMap κ ν :=
  ⟨place key value map.entries, place_ascending key value map.ascending⟩

def erase (map : SortedMap κ ν) (key : κ) : SortedMap κ ν :=
  ⟨map.entries.filter fun entry => compare key entry.1 != .eq, map.ascending.filter _⟩

def ofList [Std.TransOrd κ] (list : List (κ × ν)) : SortedMap κ ν :=
  list.foldl (fun map entry => map.insert entry.1 entry.2) empty

instance [BEq κ] [BEq ν] : BEq (SortedMap κ ν) := ⟨fun a b => a.entries == b.entries⟩

end SortedMap

end MethodFlow
