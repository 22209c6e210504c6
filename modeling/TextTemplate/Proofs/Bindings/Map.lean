import Mathlib.Data.List.Induction
import Mathlib.Data.Set.Card
import TextTemplate.Bindings

/-!
# Bindings as a finite map

Whatever operations built them, bindings represent what their names are bound to: each bound name is listed once, in
increasing order, and so bindings that represent the same are equal. Of pairs that are collected the last one of a name
counts, of definitions that follow each other the first one, and pairs count before definitions.

Main results:
* `represents`: what bindings say of the map that they represent.
* `get?_ofList`, `get?_defineEach`: what names are bound to by pairs and by definitions.
* `isSome_define?_iff`: which definitions are accepted.
* `built_represents`: bindings that pairs and definitions built.
-/

namespace TextTemplate.Bindings

/-! ## Specification -/

/-- The bindings represent the finite map. -/
structure Represents (b : Bindings) (f : Text → Option Text) : Prop where
  /-- Names are bound as in the map. -/
  get : ∀ n, b.get? n = f n
  /-- A name is contained if the map has it. -/
  contains : ∀ n, b.contains n = true ↔ ∃ e, f n = some e
  /-- They are empty if the map is. -/
  isEmpty : b.isEmpty = true ↔ ∀ n, f n = none
  /-- They are as many as the names that the map has. -/
  size : b.size = {n | ∃ e, f n = some e}.ncard
  /-- The names increase, so none of them is there twice. -/
  increasing : b.names.Pairwise (· < ·)
  /-- The names are those of the map. -/
  names : ∀ n, n ∈ b.names ↔ ∃ e, f n = some e
  /-- The entries are in the order of the names. -/
  names_entries : b.entries.map Prod.fst = b.names
  /-- The entries are those of the map. -/
  entries : ∀ n e, (n, e) ∈ b.entries ↔ f n = some e

/-- The bindings after definitions, one after the other; those that are refused change nothing. -/
def defineEach (b : Bindings) (defs : List (Text × Text)) : Bindings :=
  defs.foldl (fun b d => (b.define? d.1 d.2).getD b) b

/-- What pairs and the definitions after them bind a name to: the last pair of that name, or else the first
    definition. -/
def meaningOf (pairs defs : List (Text × Text)) (n : Text) : Option Text :=
  (pairs.reverse.lookup n).or ((defs.lookup n).map fun v => n ++ ' ' :: v)

/-! ## Names and entries -/

theorem pairwise_names (b : Bindings) : b.names.Pairwise (· < ·) := List.pairwise_map.2 b.sorted

theorem nodup_names (b : Bindings) : b.names.Nodup := by
  refine b.pairwise_names.imp fun {n m} hlt => ?_
  rintro rfl
  exact List.lt_irrefl n hlt

theorem lookup_eq_none_iff_notMem {n : Text} {es : List (Text × Text)} :
    es.lookup n = none ↔ n ∉ es.map Prod.fst := by
  rw [List.lookup_eq_none_iff, List.mem_map]
  constructor
  · rintro h ⟨p, hp, rfl⟩
    exact absurd rfl (bne_iff_ne.1 (h p hp))
  · intro h p hp
    exact bne_iff_ne.2 fun hname => h ⟨p, hp, hname.symm⟩

theorem get?_eq_none_iff {b : Bindings} {name : Text} : b.get? name = none ↔ name ∉ b.names :=
  lookup_eq_none_iff_notMem

theorem mem_names_iff {b : Bindings} {name : Text} : name ∈ b.names ↔ ∃ e, b.get? name = some e := by
  rw [← Option.ne_none_iff_exists', Ne, get?_eq_none_iff, not_not]

/-- Bindings of the same names list them in the same order. -/
theorem names_eq_of_mem_iff {b b' : Bindings} (h : ∀ n, n ∈ b.names ↔ n ∈ b'.names) :
    b.names = b'.names :=
  b.pairwise_names.eq_of_mem_iff b'.pairwise_names h

/-- Where each name stands once, looking it up finds what stands with it. -/
theorem lookup_eq_some_iff_mem {es : List (Text × Text)} (hes : es.Pairwise (·.1 ≠ ·.1)) {n e : Text} :
    es.lookup n = some e ↔ (n, e) ∈ es := by
  rw [List.lookup_eq_some_iff]
  constructor
  · rintro ⟨before, after, rfl, -⟩
    exact List.mem_append_right _ List.mem_cons_self
  · intro h
    obtain ⟨before, after, rfl⟩ := List.append_of_mem h
    rw [List.pairwise_append] at hes
    refine ⟨before, after, rfl, fun p hp => bne_iff_ne.2 fun hname => ?_⟩
    exact hes.2.2 p hp (n, e) List.mem_cons_self hname.symm

theorem pairwise_entries (b : Bindings) : b.entries.Pairwise (·.1 ≠ ·.1) := List.pairwise_map.1 b.nodup_names

theorem mem_entries_iff {b : Bindings} {n e : Text} : (n, e) ∈ b.entries ↔ b.get? n = some e :=
  (lookup_eq_some_iff_mem b.pairwise_entries).symm

theorem isEmpty_iff {b : Bindings} : b.isEmpty = true ↔ ∀ n, b.get? n = none := by
  rw [isEmpty, List.isEmpty_iff]
  constructor
  · intro h n
    rw [get?, h]
    rfl
  · intro h
    refine List.eq_nil_iff_forall_not_mem.2 fun x hx => ?_
    have hget := mem_entries_iff.1 hx
    rw [h] at hget
    cases hget

theorem size_eq_ncard (b : Bindings) : b.size = {n | ∃ e, b.get? n = some e}.ncard := by
  have hset : {n | ∃ e, b.get? n = some e} = (b.names.toFinset : Set Text) := by
    ext n
    rw [Set.mem_ofPred_eq, ← mem_names_iff, List.coe_toFinset, Set.mem_ofPred_eq]
  rw [hset, Set.ncard_coe_finset, List.toFinset_card_of_nodup b.nodup_names, names, List.length_map, size]

/-- Bindings represent the map that they look names up in. -/
theorem represents (b : Bindings) : b.Represents b.get? where
  get _ := rfl
  contains _ := Option.isSome_iff_exists
  isEmpty := isEmpty_iff
  size := b.size_eq_ncard
  increasing := b.pairwise_names
  names _ := mem_names_iff
  names_entries := rfl
  entries _ _ := mem_entries_iff

/-! ## Pairs and definitions -/

theorem get?_eq_none_of_define? {b b' : Bindings} {name value : Text}
    (h : b.define? name value = some b') : b.get? name = none := by
  unfold define? contains at h
  split at h
  · cases h
  · rename_i hname; simpa using hname

theorem get?_ne_none_of_define? {b : Bindings} {name value : Text}
    (h : b.define? name value = none) : b.get? name ≠ none := by
  unfold define? contains at h
  split at h
  · rename_i hname; simpa [Option.isSome_iff_ne_none] using hname
  · cases h

theorem isSome_define?_iff {b : Bindings} {name value : Text} :
    (b.define? name value).isSome = true ↔ b.get? name = none := by
  rw [Option.isSome_iff_exists]
  constructor
  · rintro ⟨b', hb'⟩
    exact get?_eq_none_of_define? hb'
  · intro hname
    refine Option.ne_none_iff_exists'.1 fun hnone => ?_
    exact get?_ne_none_of_define? hnone hname

/-- Of pairs the last one of a name counts. -/
theorem get?_ofList (pairs : List (Text × Text)) (n : Text) : (ofList pairs).get? n = pairs.reverse.lookup n := by
  induction pairs using List.reverseRecOn with
  | nil => rfl
  | append_singleton pairs p ih =>
    have hlast : ofList (pairs ++ [p]) = (ofList pairs).insert p.1 p.2 := by
      rw [ofList, List.foldl_append]
      rfl
    rw [hlast, get?_insert, ih, List.reverse_append, List.reverse_singleton, List.singleton_append,
      List.lookup_cons]
    by_cases hn : n = p.1
    · rw [if_pos hn, beq_iff_eq.2 hn]
    · rw [if_neg hn, beq_eq_false_iff_ne.2 hn]

/-- A definition binds its name if nothing else does. -/
theorem get?_define?_getD (b : Bindings) (d : Text × Text) (n : Text) :
    ((b.define? d.1 d.2).getD b).get? n = (b.get? n).or (if n = d.1 then some (n ++ ' ' :: d.2) else none) := by
  cases hd : b.define? d.1 d.2 with
  | none =>
    show b.get? n = _
    split_ifs with hn
    · obtain ⟨e, he⟩ := Option.ne_none_iff_exists'.1 (get?_ne_none_of_define? hd)
      rw [hn, he]
      rfl
    · rw [Option.or_none]
  | some b' =>
    show b'.get? n = _
    rw [get?_define hd]
    split_ifs with hn
    · rw [hn, get?_eq_none_of_define? hd]
      rfl
    · rw [Option.or_none]

theorem defineEach_concat (b : Bindings) (defs : List (Text × Text)) (d : Text × Text) :
    b.defineEach (defs ++ [d]) = ((b.defineEach defs).define? d.1 d.2).getD (b.defineEach defs) :=
  List.foldl_concat _ _ _ _

/-- Of definitions the first one of a name counts, if the name is not bound already. -/
theorem get?_defineEach (b : Bindings) (defs : List (Text × Text)) (n : Text) :
    (b.defineEach defs).get? n = (b.get? n).or ((defs.lookup n).map fun v => n ++ ' ' :: v) := by
  induction defs generalizing b with
  | nil => exact Option.or_none.symm
  | cons d defs ih =>
    have hcons : b.defineEach (d :: defs) = ((b.define? d.1 d.2).getD b).defineEach defs := rfl
    rw [hcons, ih, get?_define?_getD, Option.or_assoc, List.lookup_cons]
    by_cases hn : n = d.1
    · rw [if_pos hn, beq_iff_eq.2 hn]
      rfl
    · rw [if_neg hn, beq_eq_false_iff_ne.2 hn, Option.none_or]

theorem get?_built (pairs defs : List (Text × Text)) :
    ((ofList pairs).defineEach defs).get? = meaningOf pairs defs := by
  funext n
  rw [get?_defineEach, get?_ofList, meaningOf]

theorem meaningOf_eq_none_iff {pairs defs : List (Text × Text)} {n : Text} :
    meaningOf pairs defs n = none ↔ n ∉ pairs.map Prod.fst ∧ n ∉ defs.map Prod.fst := by
  rw [meaningOf, Option.or_eq_none_iff, Option.map_eq_none_iff, lookup_eq_none_iff_notMem,
    lookup_eq_none_iff_notMem, List.map_reverse, List.mem_reverse]

/-! ## Main theorem -/

/-- Bindings that pairs and then definitions built represent the map that has the last pair of each name, or else the
    first definition. The next definition is accepted if its name was in no pair and in no definition before; if it
    is refused it changes nothing. Without pairs they start out empty. And bindings are equal, however they
    were built, if they bind all names alike. -/
theorem built_represents (pairs defs : List (Text × Text)) :
    ((ofList pairs).defineEach defs).Represents (meaningOf pairs defs) ∧
    (∀ n v, (((ofList pairs).defineEach defs).define? n v).isSome = true ↔
      n ∉ pairs.map Prod.fst ∧ n ∉ defs.map Prod.fst) ∧
    (∀ n v, ((ofList pairs).defineEach defs).define? n v = none →
      (ofList pairs).defineEach (defs ++ [(n, v)]) = (ofList pairs).defineEach defs) ∧
    ofList [] = empty ∧
    ∀ b c : Bindings, b = c ↔ ∀ n, b.get? n = c.get? n := by
  refine ⟨?_, fun n v => ?_, fun n v hrefused => ?_, rfl, fun b c => ?_⟩
  · rw [← get?_built]
    exact represents _
  · rw [isSome_define?_iff, get?_built, meaningOf_eq_none_iff]
  · rw [defineEach_concat, hrefused]
    rfl
  · constructor
    · rintro rfl n
      rfl
    · exact ext_get?

end TextTemplate.Bindings
