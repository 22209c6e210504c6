import TextTemplate.Text

/-!
# Bindings

Bindings map names to the texts that their references expand to. They are kept as a list in strictly
increasing order of names (by code point), so that two equal maps are the same value and every listing
comes out in order.

Results:
* `get?_insert`, `get?_define`: what a name is bound to after each operation.
* `ext_get?`: bindings that agree on every name are equal.
-/

namespace TextTemplate

/-- Names with what they expand to, each name once, in increasing order. -/
structure Bindings where
  /-- The names and their expansions. -/
  entries : List (Text × Text)
  /-- The names increase strictly. -/
  sorted : entries.Pairwise (·.1 < ·.1)
  deriving DecidableEq

namespace Bindings

/-! ## Insertion into a list of entries -/

/-- Put an entry in its place among entries in order, instead of the one of its name, if any. -/
def insertEntry (name expansion : Text) : List (Text × Text) → List (Text × Text)
  | [] => [(name, expansion)]
  | (n, e) :: rest =>
    if name < n then (name, expansion) :: (n, e) :: rest
    else if name = n then (name, expansion) :: rest
    else (n, e) :: insertEntry name expansion rest

theorem mem_insertEntry {name expansion : Text} {x : Text × Text} {es : List (Text × Text)}
    (h : x ∈ insertEntry name expansion es) : x = (name, expansion) ∨ x ∈ es := by
  induction es with
  | nil => simpa [insertEntry] using h
  | cons e es ih => grind [insertEntry]

theorem insertEntry_sorted (name expansion : Text) {es : List (Text × Text)}
    (h : es.Pairwise (·.1 < ·.1)) : (insertEntry name expansion es).Pairwise (·.1 < ·.1) := by
  induction es with
  | nil => simp [insertEntry]
  | cons e es ih =>
    obtain ⟨n, v⟩ := e
    rw [List.pairwise_cons] at h
    unfold insertEntry
    split
    · rename_i hlt
      refine List.pairwise_cons.2 ⟨fun x hx => ?_, List.pairwise_cons.2 h⟩
      rcases List.mem_cons.1 hx with rfl | hx
      · exact hlt
      · exact List.lt_trans hlt (h.1 x hx)
    · split
      · rename_i heq
        exact List.pairwise_cons.2 ⟨fun x hx => heq ▸ h.1 x hx, h.2⟩
      · rename_i hlt hne
        have hgt : n < name := by
          rcases Std.lt_trichotomy name n with h | h | h
          · exact absurd h hlt
          · exact absurd h hne
          · exact h
        refine List.pairwise_cons.2 ⟨fun x hx => ?_, ih h.2⟩
        rcases mem_insertEntry hx with rfl | hx
        · exact hgt
        · exact h.1 x hx

/-! ## Operations -/

/-- No bindings. -/
def empty : Bindings := ⟨[], .nil⟩

/-- What a name is bound to. -/
def get? (b : Bindings) (name : Text) : Option Text := b.entries.lookup name

/-- Whether a name is bound. -/
def contains (b : Bindings) (name : Text) : Bool := (b.get? name).isSome

/-- Whether no name is bound. -/
def isEmpty (b : Bindings) : Bool := b.entries.isEmpty

/-- The number of names. -/
def size (b : Bindings) : Nat := b.entries.length

/-- The names, in increasing order. -/
def names (b : Bindings) : List Text := b.entries.map Prod.fst

/-- Bind a name to an expansion as given; an earlier binding of the name is replaced. -/
def insert (b : Bindings) (name expansion : Text) : Bindings :=
  ⟨insertEntry name expansion b.entries, insertEntry_sorted name expansion b.sorted⟩

/-- The bindings that a list of names and expansions makes; the last of a name counts. -/
def ofList (pairs : List (Text × Text)) : Bindings :=
  pairs.foldl (fun b p => b.insert p.1 p.2) empty

/-- Bind a fresh name to itself, a space and its value, or nothing if the name is bound already. -/
def define? (b : Bindings) (name value : Text) : Option Bindings :=
  if b.contains name then none else some (b.insert name (name ++ ' ' :: value))

/-! ## What a name is bound to -/

theorem lookup_insertEntry (name expansion m : Text) (es : List (Text × Text)) :
    (insertEntry name expansion es).lookup m = if m = name then some expansion else es.lookup m := by
  induction es with
  | nil => grind [insertEntry]
  | cons e es ih => grind [insertEntry]

theorem get?_empty (m : Text) : empty.get? m = none := rfl

theorem get?_insert (b : Bindings) (name expansion m : Text) :
    (b.insert name expansion).get? m = if m = name then some expansion else b.get? m :=
  lookup_insertEntry name expansion m b.entries

theorem get?_define {b b' : Bindings} {name value : Text} (h : b.define? name value = some b')
    (m : Text) : b'.get? m = if m = name then some (name ++ ' ' :: value) else b.get? m := by
  unfold define? at h
  split at h
  · cases h
  · cases h
    exact get?_insert ..

theorem lookup_eq_none_of_lt {name : Text} (es : List (Text × Text))
    (h : ∀ x ∈ es, name < x.1) : es.lookup name = none := by
  rw [List.lookup_eq_none_iff]
  rintro x hx
  have := h x hx
  simp only [bne_iff_ne, ne_eq]
  rintro rfl
  exact List.lt_irrefl _ this

theorem ext_lookup {es fs : List (Text × Text)} (he : es.Pairwise (·.1 < ·.1))
    (hf : fs.Pairwise (·.1 < ·.1)) (h : ∀ m, es.lookup m = fs.lookup m) : es = fs := by
  induction es generalizing fs with
  | nil =>
    cases fs with
    | nil => rfl
    | cons f fs => obtain ⟨n, v⟩ := f; simpa using h n
  | cons e es ih =>
    cases fs with
    | nil => obtain ⟨n, v⟩ := e; simpa using h n
    | cons f fs =>
      rw [List.pairwise_cons] at he hf
      have hee := h e.1
      have hff := h f.1
      have hn : e.1 = f.1 := by
        rcases Std.lt_trichotomy e.1 f.1 with k | k | k
        · rw [lookup_eq_none_of_lt (f :: fs) fun x hx => ?_] at hee
          · obtain ⟨n, v⟩ := e; simp at hee
          · rcases List.mem_cons.1 hx with rfl | hx
            · exact k
            · exact List.lt_trans k (hf.1 x hx)
        · exact k
        · rw [lookup_eq_none_of_lt (e :: es) fun x hx => ?_] at hff
          · obtain ⟨n, v⟩ := f; simp at hff
          · rcases List.mem_cons.1 hx with rfl | hx
            · exact k
            · exact List.lt_trans k (he.1 x hx)
      obtain ⟨n, v⟩ := e
      obtain ⟨n', v'⟩ := f
      obtain rfl : n = n' := hn
      obtain rfl : v = v' := by simpa using hee
      congr 1
      refine ih he.2 hf.2 fun m => ?_
      by_cases hm : m = n
      · subst hm
        rw [lookup_eq_none_of_lt es he.1, lookup_eq_none_of_lt fs hf.1]
      · have hm' : (m == n) = false := beq_eq_false_iff_ne.2 hm
        simpa [List.lookup_cons, hm'] using h m

theorem ext_get? {b c : Bindings} (h : ∀ m, b.get? m = c.get? m) : b = c := by
  obtain ⟨es, he⟩ := b
  obtain ⟨fs, hf⟩ := c
  obtain rfl : es = fs := ext_lookup he hf h
  rfl

end Bindings

end TextTemplate
