import Mathlib.Data.List.Basic

/-! String literals between quotes, in which a doubled quote stands for one. A text is read as
a list of characters and literals. A value whose quotes are doubled is read back as it was
written; one that is put between quotes as it is, only if it has no quote. -/

namespace BotTrader.Text

variable {α : Type*} [DecidableEq α]

inductive Token (α : Type*) where
  | char (c : α)
  | literal (value : List α)
  | unterminated
  deriving DecidableEq

/-- Where the reader is. Behind a quote in a literal it does not know yet whether the literal
has ended. -/
inductive Place (α : Type*) where
  | outside
  | inside (value : List α)
  | quote (value : List α)

def scan (q : α) : Place α → List α → List (Token α)
  | .outside, [] => []
  | .outside, c :: cs =>
    if c = q then scan q (.inside []) cs else .char c :: scan q .outside cs
  | .inside _, [] => [.unterminated]
  | .inside v, c :: cs =>
    if c = q then scan q (.quote v) cs else scan q (.inside (v ++ [c])) cs
  | .quote v, [] => [.literal v]
  | .quote v, c :: cs =>
    if c = q then scan q (.inside (v ++ [q])) cs
    else .literal v :: .char c :: scan q .outside cs

def tokens (q : α) (text : List α) : List (Token α) := scan q .outside text

/-- The value with its quotes doubled. -/
def double (q : α) (v : List α) : List α := v.flatMap fun c => if c = q then [q, q] else [c]

variable {q : α} {s v w acc text rest : List α} {ts : List (Token α)}

theorem scan_outside (h : q ∉ s) (rest : List α) :
    scan q .outside (s ++ rest) = s.map .char ++ scan q .outside rest := by
  induction s with
  | nil => rfl
  | cons c cs ih =>
    have hc : c ≠ q := fun he => h (by simp [he])
    rw [List.cons_append, scan, if_neg hc, ih fun hm => h (List.mem_cons_of_mem c hm)]
    rfl

theorem scan_quote (h : rest.head? ≠ some q) :
    scan q (.quote v) rest = .literal v :: scan q .outside rest := by
  cases rest with
  | nil => rfl
  | cons c cs =>
    have hc : c ≠ q := fun he => h (by simp [he])
    rw [scan, if_neg hc, scan, if_neg hc]

/-! ### Doubled quotes -/

theorem double_cons_self (v : List α) : double q (q :: v) = q :: q :: double q v := by
  simp [double]

theorem double_cons_of_ne {c : α} (h : c ≠ q) (v : List α) :
    double q (c :: v) = c :: double q v := by
  simp [double, h]

theorem double_append (v w : List α) : double q (v ++ w) = double q v ++ double q w :=
  List.flatMap_append

theorem double_eq_self (h : q ∉ v) : double q v = v := by
  induction v with
  | nil => rfl
  | cons c cs ih =>
    have hc : c ≠ q := fun he => h (by simp [he])
    rw [double_cons_of_ne hc, ih fun hm => h (List.mem_cons_of_mem c hm)]

/-- What is written with doubled quotes is read back. -/
theorem scan_inside (h : rest.head? ≠ some q) (acc v : List α) :
    scan q (.inside acc) (double q v ++ q :: rest) =
      .literal (acc ++ v) :: scan q .outside rest := by
  induction v generalizing acc with
  | nil =>
    have hd : double q ([] : List α) = [] := rfl
    rw [hd, List.nil_append, scan, if_pos rfl, scan_quote h, List.append_nil]
  | cons c cs ih =>
    by_cases hc : c = q
    · subst hc
      rw [double_cons_self, List.cons_append, List.cons_append, scan, if_pos rfl, scan, if_pos rfl,
        ih, List.append_assoc, List.singleton_append]
    · rw [double_cons_of_ne hc, List.cons_append, scan, if_neg hc, ih, List.append_assoc,
        List.singleton_append]

/-- A literal that was read was written with doubled quotes, and no quote follows it. -/
theorem exists_of_scan (text : List α) :
    (∀ acc w ts, scan q (.inside acc) text = .literal w :: ts →
      ∃ v rest, w = acc ++ v ∧ text = double q v ++ q :: rest ∧ rest.head? ≠ some q) ∧
    ∀ acc w ts, scan q (.quote acc) text = .literal w :: ts →
      (w = acc ∧ text.head? ≠ some q) ∨
      ∃ v rest, w = acc ++ q :: v ∧ text = q :: double q v ++ q :: rest ∧
        rest.head? ≠ some q := by
  induction text with
  | nil =>
    constructor
    · intro acc w ts h
      simp [scan] at h
    · intro acc w ts h
      simp only [scan, List.cons.injEq, Token.literal.injEq] at h
      exact .inl ⟨h.1.symm, by simp⟩
  | cons c cs ih =>
    obtain ⟨ihInside, ihQuote⟩ := ih
    by_cases hc : c = q
    · subst hc
      constructor
      · intro acc w ts h
        rw [scan, if_pos rfl] at h
        apply (ihQuote acc w ts h).elim
        · rintro ⟨rfl, hh⟩
          exact ⟨[], cs, by simp, by simp [double], hh⟩
        · rintro ⟨v, rest, hw, ht, hh⟩
          exact ⟨c :: v, rest, hw, by rw [double_cons_self, ht]; rfl, hh⟩
      · intro acc w ts h
        rw [scan, if_pos rfl] at h
        obtain ⟨v, rest, hw, ht, hh⟩ := ihInside _ w ts h
        exact .inr ⟨v, rest, by simp [hw], by simp [ht], hh⟩
    · constructor
      · intro acc w ts h
        rw [scan, if_neg hc] at h
        obtain ⟨v, rest, hw, ht, hh⟩ := ihInside _ w ts h
        exact ⟨c :: v, rest, by simp [hw], by rw [double_cons_of_ne hc, ht]; rfl, hh⟩
      · intro acc w ts h
        rw [scan, if_neg hc, List.cons.injEq, Token.literal.injEq] at h
        exact .inl ⟨h.1.symm, by simpa using hc⟩

/-! ### Values between quotes as they are -/

/-- Doubling a quote leaves one too many, however far the text is compared. -/
theorem replicate_append_double_ne (h : rest.head? ≠ some q) (n : ℕ) (b rem : List α) :
    List.replicate (n + 1) q ++ (double q b ++ q :: rem) ≠ b ++ q :: rest := by
  induction b generalizing n with
  | nil =>
    intro he
    have hr : List.replicate n q ++ q :: rem = rest := by
      simpa [double, List.replicate_succ] using he
    cases n <;> simp [← hr, List.replicate_succ] at h
  | cons c cs ih =>
    intro he
    rw [List.replicate_succ, List.cons_append, List.cons_append, List.cons.injEq] at he
    obtain ⟨rfl, ht⟩ := he
    apply ih (n + 1)
    rw [← ht, double_cons_self, List.replicate_succ', List.replicate_succ', List.append_assoc,
      List.append_assoc]
    rfl

/-- A value between quotes is the literal that is read if and only if it has no quote. -/
theorem scan_raw_iff (h : rest.head? ≠ some q) (s : List α) :
    (∃ ts, tokens q (q :: (s ++ q :: rest)) = .literal s :: ts) ↔ q ∉ s := by
  have hopen : tokens q (q :: (s ++ q :: rest)) = scan q (.inside []) (s ++ q :: rest) := by
    rw [tokens, scan, if_pos rfl]
  rw [hopen]
  constructor
  · rintro ⟨ts, ht⟩ hs
    obtain ⟨v, rem, hv, he, -⟩ := (exists_of_scan (s ++ q :: rest)).1 [] s ts ht
    rw [List.nil_append] at hv
    subst hv
    obtain ⟨a, b, hab, ha⟩ := List.eq_append_cons_of_mem hs
    rw [hab, double_append, double_eq_self ha, double_cons_self, List.append_assoc,
      List.append_assoc, List.append_cancel_left_eq, List.cons_append, List.cons_append,
      List.cons.injEq] at he
    exact replicate_append_double_ne h 0 b rem he.2.symm
  · intro hs
    have hd := scan_inside h [] s
    rw [double_eq_self hs, List.nil_append] at hd
    exact ⟨_, hd⟩

theorem tokens_raw (hs : q ∉ s) (h : rest.head? ≠ some q) :
    tokens q (q :: (s ++ q :: rest)) = .literal s :: tokens q rest := by
  have hd := scan_inside h [] s
  rw [double_eq_self hs, List.nil_append] at hd
  rw [tokens, scan, if_pos rfl, hd, tokens]

theorem tokens_append (hs : q ∉ s) (rest : List α) :
    tokens q (s ++ rest) = s.map .char ++ tokens q rest := scan_outside hs rest

/-- The part of a literal that has been read. -/
def Place.held : Place α → List α
  | .outside => []
  | .inside v | .quote v => v

/-- One character is added to what is held, or what was held is the next literal. -/
theorem exists_scan_cons (p : Place α) (d : α) (ds : List α) :
    ∃ p' ts, scan q p (d :: ds) = ts ++ scan q p' ds ∧
      (∀ x ∈ p'.held, x ∈ p.held ∨ x = d) ∧ ∀ v, .literal v ∈ ts → v = p.held := by
  by_cases hd : d = q
  · subst hd
    cases p with
    | outside => exact ⟨.inside [], [], by simp [scan], by simp [Place.held], by simp⟩
    | inside w => exact ⟨.quote w, [], by simp [scan], fun x hx => .inl hx, by simp⟩
    | quote w => exact ⟨.inside (w ++ [d]), [], by simp [scan], by simp [Place.held], by simp⟩
  · cases p with
    | outside => exact ⟨.outside, [.char d], by simp [scan, hd], by simp [Place.held], by simp⟩
    | inside w => exact ⟨.inside (w ++ [d]), [], by simp [scan, hd], by simp [Place.held], by simp⟩
    | quote w =>
      exact ⟨.outside, [.literal w, .char d], by simp [scan, hd], by simp [Place.held],
        by simp [Place.held]⟩

theorem mem_of_mem_scan {p : Place α} {c : α} (hl : .literal v ∈ scan q p text) (hc : c ∈ v) :
    c ∈ p.held ∨ c ∈ text := by
  induction text generalizing p with
  | nil =>
    cases p with
    | outside => simp [scan] at hl
    | inside w => simp [scan] at hl
    | quote w =>
      simp only [scan, List.mem_singleton, Token.literal.injEq] at hl
      exact .inl (hl ▸ hc)
  | cons d ds ih =>
    obtain ⟨p', ts, hs, hheld, hnow⟩ := exists_scan_cons (q := q) p d ds
    rw [hs, List.mem_append] at hl
    apply hl.elim
    · intro hl
      exact .inl (hnow v hl ▸ hc)
    · intro hl
      apply (ih hl).elim
      · intro hm
        exact (hheld c hm).imp id fun he => by simp [he]
      · intro hm
        exact .inr (List.mem_cons_of_mem d hm)

/-- A literal holds characters of the text. -/
theorem mem_of_mem_tokens {c : α} (hl : .literal v ∈ tokens q text) (hc : c ∈ v) : c ∈ text := by
  simpa [Place.held] using mem_of_mem_scan hl hc

end BotTrader.Text
