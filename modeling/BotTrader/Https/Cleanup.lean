import Mathlib.Data.List.TakeWhile
import Mathlib.Order.Basic
import BotTrader.Https.Client

/-! What the cleanup of the queue removes. The age of a request is an unsigned difference, so
a request from the future, as there are when the clock was set back, counts as old. -/

namespace BotTrader.Https

namespace Client

variable {interval now : UInt64} {rs : List ReqResp}

/-- A request that is to be kept: it was sent, or it is not yet as old as the interval. -/
def Fresh (interval now : UInt64) (r : ReqResp) : Prop :=
  r.sendTime ≠ 0 ∨ now.toNat < r.pushTime.toNat + interval.toNat

instance : DecidablePred (Fresh interval now) :=
  fun r => inferInstanceAs (Decidable (r.sendTime ≠ 0 ∨ _))

/-- The requests that the loop passes before it ends. -/
def passed (interval now : UInt64) (rs : List ReqResp) : List ReqResp :=
  rs.takeWhile fun r => r.sendTime ≠ 0 ∨ interval ≤ now - r.pushTime

def unseen (interval now : UInt64) (rs : List ReqResp) : List ReqResp :=
  rs.dropWhile fun r => r.sendTime ≠ 0 ∨ interval ≤ now - r.pushTime

/-- Fresh requests stay in their order, and if the requests are ordered by a time that is not
in the future, the others go. -/
structure CleansExactly (interval now : UInt64) (rs : List ReqResp) : Prop where
  keeps : (rs.filter (Fresh interval now)).Sublist (cleanup interval now rs)
  order : (cleanup interval now rs).Sublist rs
  removes : rs.Pairwise (fun r r' => r.pushTime ≤ r'.pushTime) → (∀ r ∈ rs, r.pushTime ≤ now) →
    cleanup interval now rs = rs.filter (Fresh interval now)

/-- Of the requests passed, those that were sent are kept. -/
theorem cleanup_eq (interval now : UInt64) (rs : List ReqResp) :
    cleanup interval now rs =
      (passed interval now rs).filter (fun r => r.sendTime ≠ 0) ++ unseen interval now rs := by
  induction rs with
  | nil => rfl
  | cons r rs ih =>
    by_cases hs : r.sendTime = 0
    · by_cases ha : interval ≤ now - r.pushTime
      · have hc : cleanup interval now (r :: rs) = cleanup interval now rs := by
          simp [cleanup, hs, ha]
        rw [hc, ih]
        simp [passed, unseen, hs, ha]
      · simp [cleanup, passed, unseen, hs, ha]
    · have hc : cleanup interval now (r :: rs) = r :: cleanup interval now rs := by
        simp [cleanup, hs]
      rw [hc, ih]
      simp [passed, unseen, hs]

theorem passed_append_unseen (interval now : UInt64) (rs : List ReqResp) :
    passed interval now rs ++ unseen interval now rs = rs :=
  List.takeWhile_append_dropWhile

/-- The age of a request that is not from the future. -/
theorem le_sub_iff {pushTime : UInt64} (h : pushTime ≤ now) :
    interval ≤ now - pushTime ↔ pushTime.toNat + interval.toNat ≤ now.toNat := by
  have hle := UInt64.le_iff_toNat_le.mp h
  rw [UInt64.le_iff_toNat_le, UInt64.toNat_sub_of_le _ _ h]
  omega

/-- No request passed that is from now or before is unsent and fresh. -/
theorem sent_of_fresh {r : ReqResp} (hr : r ∈ passed interval now rs)
    (hp : r.sendTime = 0 → r.pushTime ≤ now) (hf : Fresh interval now r) : r.sendTime ≠ 0 := by
  intro hs
  have hage := List.mem_takeWhile_imp hr
  simp only [hs, ne_eq, not_true_eq_false, false_or, decide_eq_true_eq] at hage
  have hold := (le_sub_iff (hp hs)).mp hage
  have hyoung : now.toNat < r.pushTime.toNat + interval.toNat := hf.resolve_left (fun h => h hs)
  omega

/-- The request that ends the loop is unsent and young. -/
theorem head_unseen {r : ReqResp} {us : List ReqResp} (h : unseen interval now rs = r :: us) :
    r.sendTime = 0 ∧ ¬interval ≤ now - r.pushTime := by
  induction rs with
  | nil => simp [unseen] at h
  | cons x xs ih =>
    by_cases hx : x.sendTime ≠ 0 ∨ interval ≤ now - x.pushTime
    · rw [unseen, List.dropWhile_cons_of_pos (by simpa using hx)] at h
      exact ih h
    · rw [unseen, List.dropWhile_cons_of_neg (by simpa using hx), List.cons.injEq] at h
      rw [← h.1]
      exact ⟨not_not.mp fun hs => hx (.inl hs), fun ha => hx (.inr ha)⟩

/-- Of the requests passed, the fresh ones are those that were sent. -/
theorem filter_passed (h : ∀ r ∈ passed interval now rs, r.sendTime = 0 → r.pushTime ≤ now) :
    (passed interval now rs).filter (Fresh interval now) =
      (passed interval now rs).filter fun r => r.sendTime ≠ 0 := by
  apply List.filter_congr
  intro r hr
  simp only [decide_eq_decide]
  exact ⟨sent_of_fresh hr (h r hr), .inl⟩

/-- The fresh requests are kept if and only if the loop meets no unsent one from the future. -/
theorem keeps_iff (interval now : UInt64) (rs : List ReqResp) :
    (rs.filter (Fresh interval now)).Sublist (cleanup interval now rs) ↔
      ∀ r ∈ passed interval now rs, r.sendTime = 0 → r.pushTime ≤ now := by
  constructor
  · intro h r hr hs
    by_contra hp
    -- how many requests there are that are unsent and fresh
    let lost : ReqResp → Bool := fun r => r.sendTime = 0 ∧ Fresh interval now r
    have hcount := h.countP_le (p := lost)
    have hkept : (rs.filter (Fresh interval now)).countP lost =
        (passed interval now rs).countP lost + (unseen interval now rs).countP lost := by
      rw [List.countP_filter, ← List.countP_append, passed_append_unseen]
      apply List.countP_congr
      simp +contextual [lost]
    have hleft : (cleanup interval now rs).countP lost = (unseen interval now rs).countP lost := by
      rw [cleanup_eq, List.countP_append, List.countP_filter, Nat.add_eq_right,
        List.countP_eq_zero]
      simp +contextual [lost]
    have hzero : (passed interval now rs).countP lost = 0 := by omega
    have hlost := List.countP_eq_zero.mp hzero r hr
    apply hlost
    have hfuture : now.toNat < r.pushTime.toNat := by
      have hlt := UInt64.not_le.mp hp
      exact UInt64.lt_iff_toNat_lt.mp hlt
    exact decide_eq_true ⟨hs, .inr (by omega)⟩
  · intro h
    rw [cleanup_eq]
    conv_lhs => rw [← passed_append_unseen interval now rs]
    rw [List.filter_append, filter_passed h]
    exact List.Sublist.append (List.Sublist.refl _) List.filter_sublist

/-- Requests in order that are not from the future are cleaned up exactly. -/
theorem cleanup_of_pairwise (ho : rs.Pairwise fun r r' => r.pushTime ≤ r'.pushTime)
    (hn : ∀ r ∈ rs, r.pushTime ≤ now) :
    cleanup interval now rs = rs.filter (Fresh interval now) := by
  have hpassed : ∀ r ∈ passed interval now rs, r.sendTime = 0 → r.pushTime ≤ now :=
    fun r hr _ => hn r ((List.takeWhile_prefix _).subset hr)
  have hunseen : ∀ r ∈ unseen interval now rs, Fresh interval now r := by
    intro r hr
    obtain ⟨r₀, us, hu⟩ := List.exists_cons_of_ne_nil (List.ne_nil_of_mem hr)
    have hsub : (r₀ :: us).Sublist rs := hu ▸ List.dropWhile_sublist _
    obtain ⟨hs, ha⟩ := head_unseen hu
    have hmem : r₀ ∈ rs := hsub.subset List.mem_cons_self
    have hyoung : now.toNat < r₀.pushTime.toNat + interval.toNat :=
      not_le.mp fun hle => ha ((le_sub_iff (hn r₀ hmem)).mpr hle)
    have hafter : r₀.pushTime ≤ r.pushTime := by
      rw [hu] at hr
      rcases List.mem_cons.mp hr with rfl | hr
      · exact UInt64.le_refl _
      · exact (List.pairwise_cons.mp (ho.sublist hsub)).1 r hr
    have hle := UInt64.le_iff_toNat_le.mp hafter
    exact .inr (by omega)
  rw [cleanup_eq]
  conv_rhs => rw [← passed_append_unseen interval now rs]
  rw [List.filter_append, filter_passed hpassed,
    List.filter_eq_self.mpr fun r hr => decide_eq_true (hunseen r hr)]

/-- The cleanup removes exactly the expired requests if and only if, up to where it ends, it
meets no unsent request that is from the future. -/
theorem cleansExactly_iff (interval now : UInt64) (rs : List ReqResp) :
    CleansExactly interval now rs ↔
      ∀ r ∈ rs.takeWhile (fun r => r.sendTime ≠ 0 ∨ interval ≤ now - r.pushTime),
        r.sendTime = 0 → r.pushTime ≤ now := by
  constructor
  · intro h
    exact (keeps_iff interval now rs).mp h.keeps
  · intro h
    constructor
    case keeps => exact (keeps_iff interval now rs).mpr h
    case order => exact cleanup_sublist interval now rs
    case removes => exact cleanup_of_pairwise

/-- The clock was set back by a millisecond: a request just made is erased. -/
theorem not_cleansExactly_setBack : ¬CleansExactly 60000 999 [⟨0, 1000, 0, none⟩] := by
  intro h
  have hk := h.keeps.length_le
  revert hk
  decide

end Client

end BotTrader.Https
