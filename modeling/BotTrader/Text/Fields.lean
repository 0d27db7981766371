import Mathlib.Data.List.TakeWhile

/-! Lists of fields as text: the name and the value of a field are joined by one character,
and the fields are separated by another. The reader splits at the separator, passes over
empty pieces, and splits each other piece where it first joins. It gives back the fields
that neither of the two characters spoils, also from a text that is cut off where the field
of a given name begins. -/

namespace BotTrader.Text

variable {α : Type*} [DecidableEq α]

section Split

variable {sep : α}

theorem not_mem_of_mem_splitOn {text piece : List α} (h : piece ∈ text.splitOn sep) :
    sep ∉ piece := by
  induction text generalizing piece with
  | nil =>
    rw [List.splitOn_nil, List.mem_singleton] at h
    simp [h]
  | cons c cs ih =>
    rw [List.splitOn_cons_eq_if_modifyHead] at h
    obtain ⟨first, rest, hs⟩ := List.exists_cons_of_ne_nil (List.splitOn_ne_nil sep cs)
    rw [hs] at ih h
    by_cases hc : c = sep
    · rw [if_pos (beq_iff_eq.mpr hc), List.mem_cons] at h
      apply h.elim
      · intro hp
        simp [hp]
      · exact fun hp => ih hp
    · rw [if_neg (by simpa using hc), List.modifyHead_cons, List.mem_cons] at h
      apply h.elim
      · intro hp
        have hf := ih List.mem_cons_self
        simpa [hp, hf] using Ne.symm hc
      · exact fun hp => ih (List.mem_cons_of_mem first hp)

end Split

/-! ### The reader -/

def field (eq : α) (kv : List α × List α) : List α := kv.1 ++ eq :: kv.2

def readField (eq : α) (piece : List α) : List α × List α :=
  (piece.takeWhile (· ≠ eq), (piece.dropWhile (· ≠ eq)).tail)

def readFields (sep eq : α) (text : List α) : List (List α × List α) :=
  ((text.splitOn sep).filter (· ≠ [])).map (readField eq)

/-- Neither the separator nor, in the name, the character behind it. -/
structure CleanField (sep eq : α) (kv : List α × List α) : Prop where
  name : sep ∉ kv.1
  join : eq ∉ kv.1
  value : sep ∉ kv.2

variable {sep eq : α} {kv : List α × List α}

instance : Decidable (CleanField sep eq kv) :=
  decidable_of_iff (sep ∉ kv.1 ∧ eq ∉ kv.1 ∧ sep ∉ kv.2)
    ⟨fun h => ⟨h.1, h.2.1, h.2.2⟩, fun h => ⟨h.name, h.join, h.value⟩⟩

theorem takeWhile_ne_append {l : List α} (h : eq ∉ l) (t : List α) :
    (l ++ eq :: t).takeWhile (· ≠ eq) = l := by
  rw [List.takeWhile_append_of_pos fun c hc => decide_eq_true (ne_of_mem_of_not_mem hc h)]
  simp

theorem dropWhile_ne_append {l : List α} (h : eq ∉ l) (t : List α) :
    (l ++ eq :: t).dropWhile (· ≠ eq) = eq :: t := by
  rw [List.dropWhile_append_of_pos fun c hc => decide_eq_true (ne_of_mem_of_not_mem hc h)]
  simp

theorem readField_field (h : eq ∉ kv.1) : readField eq (field eq kv) = kv := by
  rw [readField, field, takeWhile_ne_append h, dropWhile_ne_append h, List.tail_cons]

omit [DecidableEq α] in
theorem field_ne_nil : field eq kv ≠ [] := by simp [field]

omit [DecidableEq α] in
theorem CleanField.not_mem (h : CleanField sep eq kv) (hne : sep ≠ eq) : sep ∉ field eq kv := by
  simp [field, h.name, h.value, hne]

/-- Whatever the text, what is read from it is clean. -/
theorem clean_of_mem_readFields {text : List α} (h : kv ∈ readFields sep eq text) :
    CleanField sep eq kv := by
  obtain ⟨piece, hp, rfl⟩ := List.mem_map.mp h
  have hs : sep ∉ piece := not_mem_of_mem_splitOn (List.mem_filter.mp hp).1
  constructor
  case name => exact fun hm => hs ((List.takeWhile_prefix _).subset hm)
  case join =>
    intro hm
    have hn := List.mem_takeWhile_imp hm
    simp at hn
  case value => exact fun hm => hs ((List.dropWhile_suffix _).subset (List.mem_of_mem_tail hm))

/-! ### The text of a list of fields -/

/-- Fields that stand behind another one. -/
def fieldsAfter (sep eq : α) (kvs : List (List α × List α)) : List α :=
  kvs.flatMap fun kv => sep :: field eq kv

/-- The separator at the end makes no difference. -/
theorem readFields_fields (hne : sep ≠ eq) {kvs : List (List α × List α)} {z : List α}
    (hz : z = [] ∨ z = [sep]) (h : ∀ x ∈ kv :: kvs, CleanField sep eq x) :
    readFields sep eq (field eq kv ++ fieldsAfter sep eq kvs ++ z) = kv :: kvs := by
  induction kvs generalizing kv with
  | nil =>
    have hkv := h kv List.mem_cons_self
    have hm := hkv.not_mem hne
    have hr : (field eq kv ++ z).splitOn sep = [field eq kv] ∨
        (field eq kv ++ z).splitOn sep = [field eq kv, []] := by
      apply hz.imp
      · intro hz
        simpa [hz] using List.splitOn_eq_singleton hm
      · intro hz
        simpa [hz] using List.splitOn_append_cons_self_of_not_mem hm []
    rw [fieldsAfter, List.flatMap_nil, List.append_nil, readFields]
    rcases hr with hr | hr <;> simp [hr, field_ne_nil, readField_field hkv.join]
  | cons next kvs ih =>
    have hkv := h kv List.mem_cons_self
    have hm := hkv.not_mem hne
    have ht : field eq kv ++ fieldsAfter sep eq (next :: kvs) ++ z =
        field eq kv ++ sep :: (field eq next ++ fieldsAfter sep eq kvs ++ z) := by
      simp [fieldsAfter]
    have hnext := ih fun x hx => h x (List.mem_cons_of_mem kv hx)
    rw [ht, readFields, List.splitOn_append_cons_self_of_not_mem hm,
      List.filter_cons_of_pos (by simp [field_ne_nil]), List.map_cons, readField_field hkv.join]
    exact congrArg (kv :: ·) hnext

/-! ### Cutting a text off -/

/-- What stands before the first `pat`, or all of the text. -/
def upTo (pat : List α) : List α → List α
  | [] => []
  | c :: cs => if pat.isPrefixOf (c :: cs) then [] else c :: upTo pat cs

section UpTo

variable {pat name s : List α}

theorem upTo_append {p : List α} (h : sep ∉ p) :
    upTo (sep :: pat) (p ++ s) = p ++ upTo (sep :: pat) s := by
  induction p with
  | nil => rfl
  | cons c cs ih =>
    have hc : ¬(sep :: pat).isPrefixOf (c :: (cs ++ s)) = true := by
      rw [List.isPrefixOf_iff_prefix, List.cons_prefix_cons]
      intro hp
      exact h (by simp [hp.1])
    rw [List.cons_append, upTo, if_neg hc, ih fun hm => h (List.mem_cons_of_mem c hm),
      List.cons_append]

/-- The name that a field begins with, and the joining character, are its own. -/
theorem isPrefixOf_field_iff (hname : eq ∉ name) (h : eq ∉ kv.1) :
    (name ++ [eq]).isPrefixOf (field eq kv ++ s) = true ↔ kv.1 = name := by
  rw [List.isPrefixOf_iff_prefix, field]
  constructor
  · rintro ⟨t, ht⟩
    have hs := congrArg (List.takeWhile (· ≠ eq)) ht
    rw [List.append_assoc, List.append_assoc, List.singleton_append, List.cons_append,
      takeWhile_ne_append hname, takeWhile_ne_append h] at hs
    exact hs.symm
  · rintro rfl
    exact ⟨kv.2 ++ s, by simp⟩

/-- A field of the name cuts the text off, any other one is kept. -/
theorem upTo_field (hne : sep ≠ eq) (hname : eq ∉ name) (h : CleanField sep eq kv) :
    upTo (sep :: (name ++ [eq])) (sep :: field eq kv ++ s) =
      if kv.1 = name then [] else sep :: field eq kv ++ upTo (sep :: (name ++ [eq])) s := by
  have hiff : (sep :: (name ++ [eq])).isPrefixOf (sep :: (field eq kv ++ s)) = true ↔
      kv.1 = name := by
    rw [← isPrefixOf_field_iff (s := s) hname h.join]
    simp
  rw [List.cons_append, upTo, upTo_append (h.not_mem hne)]
  by_cases hk : kv.1 = name
  · rw [if_pos hk, if_pos (hiff.mpr hk)]
  · rw [if_neg hk, if_neg (mt hiff.mp hk), List.cons_append]

theorem upTo_fieldsAfter (hne : sep ≠ eq) (hname : eq ∉ name) {kvs : List (List α × List α)}
    (h : ∀ x ∈ kvs, CleanField sep eq x) :
    upTo (sep :: (name ++ [eq])) (fieldsAfter sep eq kvs ++ s) =
      fieldsAfter sep eq (kvs.takeWhile (·.1 ≠ name)) ++
        if ∀ x ∈ kvs, x.1 ≠ name then upTo (sep :: (name ++ [eq])) s else [] := by
  induction kvs with
  | nil => simp [fieldsAfter]
  | cons x xs ih =>
    have hrest := ih fun y hy => h y (List.mem_cons_of_mem x hy)
    have ht : fieldsAfter sep eq (x :: xs) ++ s =
        sep :: field eq x ++ (fieldsAfter sep eq xs ++ s) := by
      simp [fieldsAfter]
    rw [ht, upTo_field hne hname (h x List.mem_cons_self), hrest]
    by_cases hx : x.1 = name
    · simp [hx, fieldsAfter]
    · have hall : (∀ y ∈ x :: xs, y.1 ≠ name) ↔ ∀ y ∈ xs, y.1 ≠ name := by simp [hx]
      simp only [hall]
      simp [hx, fieldsAfter]

/-- What is read up to the field of a name are the fields before it. The first field is
never cut off, as no separator stands before it. -/
theorem upTo_fields (hne : sep ≠ eq) (hname : eq ∉ name) {kvs : List (List α × List α)}
    (h : ∀ x ∈ kv :: kvs, CleanField sep eq x) :
    upTo (sep :: (name ++ [eq])) (field eq kv ++ fieldsAfter sep eq kvs ++ s) =
      field eq kv ++ fieldsAfter sep eq (kvs.takeWhile (·.1 ≠ name)) ++
        if ∀ x ∈ kvs, x.1 ≠ name then upTo (sep :: (name ++ [eq])) s else [] := by
  have hkv := h kv List.mem_cons_self
  rw [List.append_assoc, upTo_append (hkv.not_mem hne),
    upTo_fieldsAfter hne hname fun x hx => h x (List.mem_cons_of_mem kv hx), List.append_assoc]

end UpTo

end BotTrader.Text
