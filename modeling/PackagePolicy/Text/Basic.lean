/-!
# Texts

A text is a list of characters, so that every reader in this library is a recursion on the text it
reads. This file holds the cutting and trimming operations that do not depend on a character class.
-/

namespace PackagePolicy

abbrev Text := List Char

namespace Text

/-! ### Cutting -/

def cut (c : Char) : Text → Option (Text × Text)
  | [] => none
  | x :: s => if x = c then some ([], s) else (cut c s).map fun p => (x :: p.1, p.2)

def cutAt (mark : Text) : Text → Option (Text × Text)
  | [] => if mark.isEmpty then some ([], []) else none
  | x :: s =>
    if mark.isPrefixOf (x :: s) then some ([], (x :: s).drop mark.length)
    else (cutAt mark s).map fun p => (x :: p.1, p.2)

def cutAtLast (mark : Text) : Text → Option (Text × Text)
  | [] => if mark.isEmpty then some ([], []) else none
  | x :: s =>
    match cutAtLast mark s with
    | some p => some (x :: p.1, p.2)
    | none =>
      if mark.isPrefixOf (x :: s) then some ([], (x :: s).drop mark.length) else none

theorem cut_eq_append {c : Char} {s a b : Text} (h : cut c s = some (a, b)) :
    s = a ++ c :: b := by
  induction s generalizing a with
  | nil => simp [cut] at h
  | cons x s ih =>
    by_cases hx : x = c
    · simp only [cut, hx, if_true, Option.some.injEq, Prod.mk.injEq] at h
      simp [hx, ← h.1, ← h.2]
    · simp only [cut, hx, if_false, Option.map_eq_some_iff] at h
      obtain ⟨⟨a', b'⟩, h', heq⟩ := h
      simp only [Prod.mk.injEq] at heq
      obtain ⟨rfl, rfl⟩ := heq
      rw [List.cons_append, ← ih h']

theorem length_lt_of_cut {c : Char} {s a b : Text} (h : cut c s = some (a, b)) :
    b.length < s.length := by
  rw [cut_eq_append h]
  simp only [List.length_append, List.length_cons]
  omega

theorem mem_of_mem_splitOnP {p : Char → Bool} {s w : Text} (hw : w ∈ s.splitOnP p) :
    ∀ c ∈ w, c ∈ s ∧ p c = false := by
  induction s generalizing w with
  | nil => simp_all
  | cons x s ih =>
    intro c hc
    rw [List.splitOnP_cons_eq_if_modifyHead] at hw
    split at hw
    · rcases List.mem_cons.mp hw with rfl | hw
      · cases hc
      · exact ⟨List.mem_cons_of_mem x (ih hw c hc).1, (ih hw c hc).2⟩
    next hx =>
      -- the head of the pieces of `s` is the only one that changes
      cases h : s.splitOnP p with
      | nil => exact absurd h (List.splitOnP_ne_nil p s)
      | cons head pieces =>
        rw [h, List.modifyHead_cons] at hw
        rw [h] at ih
        rcases List.mem_cons.mp hw with rfl | hw
        · rcases List.mem_cons.mp hc with rfl | hc
          · exact ⟨List.mem_cons_self, by simpa using hx⟩
          · have hh := ih List.mem_cons_self c hc
            exact ⟨List.mem_cons_of_mem x hh.1, hh.2⟩
        · have hh := ih (List.mem_cons_of_mem head hw) c hc
          exact ⟨List.mem_cons_of_mem x hh.1, hh.2⟩

/-! ### Ends -/

def after? (lead s : Text) : Option Text :=
  if lead.isPrefixOf s then some (s.drop lead.length) else none

def before? (tail s : Text) : Option Text :=
  if tail.isSuffixOf s then some (s.take (s.length - tail.length)) else none

def dropLead (c : Char) : Text → Text
  | [] => []
  | x :: s => if x = c then s else x :: s

theorem dropWhile_eq_self {p : Char → Bool} {s : Text} (h : ∀ c ∈ s, p c = false) :
    s.dropWhile p = s := by
  cases s with
  | nil => rfl
  | cons c s => rw [List.dropWhile_cons, h c List.mem_cons_self, if_neg Bool.false_ne_true]

def dropTail (p : Char → Bool) (s : Text) : Text :=
  (s.reverse.dropWhile p).reverse

theorem dropTail_cons (p : Char → Bool) (c : Char) (s : Text) :
    dropTail p (c :: s) = if p c && (dropTail p s).isEmpty then [] else c :: dropTail p s := by
  simp only [dropTail, List.reverse_cons, List.dropWhile_append, List.isEmpty_reverse]
  cases h : (s.reverse.dropWhile p).isEmpty with
  | true =>
    rw [List.isEmpty_iff] at h
    cases hc : p c <;> simp [h, hc]
  | false => simp

def has (p : Char → Bool) (s : Text) : Bool := s.any p

/-! ### Lines -/

def withoutReturn (s : Text) : Text :=
  match s.getLast? with
  | some '\r' => s.dropLast
  | _ => s

/-- Lines from pieces between line feeds: the last piece is a line only if it is not empty, and
one carriage return before a line feed belongs to the line end. -/
def linesOfPieces : List Text → List Text
  | [] => []
  | [last] => if last.isEmpty then [] else [last]
  | piece :: more => withoutReturn piece :: linesOfPieces more

def lines (s : Text) : List Text := linesOfPieces (s.splitOn '\n')

def join (sep : Text) (parts : List Text) : Text := List.intercalate sep parts

def utf8Length : Text → Nat
  | [] => 0
  | c :: s => c.utf8Size + utf8Length s

/-! ### Order -/

def le (a b : Text) : Bool := (compare a b).isLE

def sorted (parts : List Text) : List Text := parts.mergeSort le

end Text
end PackagePolicy
