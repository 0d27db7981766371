import BotTrader.Strategy.EventSpecs

/-! What a trade-data message changes. It stages five values one by one, so up to the
first that cannot be converted, and when all could be converted an idle symbol gets
ready. -/

namespace BotTrader.Strategy

open Automata Handler Python

variable {F : Type}

/-- The part of a symbol that is staged or traded on. -/
def SymbolData.staged (d : SymbolData F) :=
  (d.tempTrigger, d.tempPrice, d.tempQuantity, d.fsm, d.orders)

/-- The staged values. -/
inductive Slot where
  | buyTrigger | buyPrice | sellTrigger | sellPrice | quantity
  deriving DecidableEq

def Slot.get : Slot → SymbolData F → F
  | buyTrigger, d => d.tempTrigger 0
  | buyPrice, d => d.tempPrice 0
  | sellTrigger, d => d.tempTrigger 1
  | sellPrice, d => d.tempPrice 1
  | quantity, d => d.tempQuantity

def Slot.set : Slot → F → SymbolData F → SymbolData F
  | buyTrigger, x, d => { d with tempTrigger := Function.update d.tempTrigger 0 x }
  | buyPrice, x, d => { d with tempPrice := Function.update d.tempPrice 0 x }
  | sellTrigger, x, d => { d with tempTrigger := Function.update d.tempTrigger 1 x }
  | sellPrice, x, d => { d with tempPrice := Function.update d.tempPrice 1 x }
  | quantity, x, d => { d with tempQuantity := x }

theorem Slot.get_set_self (i : Slot) (x : F) (d : SymbolData F) : i.get (i.set x d) = x := by
  cases i <;> simp [get, set]

theorem Slot.get_set_of_ne {i j : Slot} (h : j ≠ i) (x : F) (d : SymbolData F) :
    j.get (i.set x d) = j.get d := by
  cases i <;> cases j <;> first | exact absurd rfl h | simp [get, set]

theorem Slot.set_get (i : Slot) (d : SymbolData F) : i.set (i.get d) d = d := by
  cases i <;> simp [get, set]

theorem staged_eq_iff {d d' : SymbolData F} : d'.staged = d.staged ↔
    (∀ i : Slot, i.get d' = i.get d) ∧ d'.fsm = d.fsm ∧ d'.orders = d.orders := by
  simp only [SymbolData.staged, Prod.mk.injEq]
  constructor
  · rintro ⟨ht, hp, hq, hf, ho⟩
    refine ⟨fun i => ?_, hf, ho⟩
    cases i <;> simp only [Slot.get, ht, hp, hq]
  · rintro ⟨h, hf, ho⟩
    refine ⟨funext fun i => ?_, funext fun i => ?_, h .quantity, hf, ho⟩
    · revert i
      exact Fin.forall_fin_two.mpr ⟨h .buyTrigger, h .sellTrigger⟩
    · revert i
      exact Fin.forall_fin_two.mpr ⟨h .buyPrice, h .sellPrice⟩

variable [Runtime F]

/-- The value that a message has for a slot. -/
def Slot.value (data : Dict F) : Slot → Except Exc F
  | buyTrigger => legValue data "B" "t"
  | buyPrice => legValue data "B" "p"
  | sellTrigger => legValue data "S" "t"
  | sellPrice => legValue data "S" "p"
  | quantity => do (← data.item "q").toFloat

/-- Stage the slots of a list. -/
def stageSlots (data : Dict F) : List Slot → Py F Unit
  | [] => pure ()
  | i :: is => do
    let x ← attempt (i.value data)
    update (i.set x)
    stageSlots data is

/-- All slots in the order in which they are staged. -/
def Slot.all : List Slot := [buyTrigger, buyPrice, sellTrigger, sellPrice, quantity]

/-- Some slot of the list gets another value, and none before it fails. -/
def Differs (data : Dict F) (d : SymbolData F) : List Slot → Prop
  | [] => False
  | i :: is => ∃ x, i.value data = .ok x ∧ (x ≠ i.get d ∨ Differs data d is)

theorem run_stageSlots_cons (data : Dict F) (i : Slot) (is : List Slot) (d : SymbolData F) :
    (stageSlots data (i :: is)).run d = match i.value data with
      | .ok x => (stageSlots data is).run (i.set x d)
      | .error x => .raised x d [] := by
  rw [stageSlots]
  cases i.value data <;> simp [run_bind]

theorem run_stageData (data : Dict F) (d : SymbolData F) :
    (stageData data).run d = (stageSlots data Slot.all).run d := by
  simp only [Slot.all, run_stageSlots_cons, stageData]
  rcases h₁ : legValue data "B" "t" with e | x₁
  · simp [Slot.value, h₁, run_bind]
  rcases h₂ : legValue data "B" "p" with e | x₂
  · simp [Slot.value, Slot.set, h₁, h₂, run_bind]
  rcases h₃ : legValue data "S" "t" with e | x₃
  · simp [Slot.value, Slot.set, h₁, h₂, h₃, run_bind]
  rcases h₄ : legValue data "S" "p" with e | x₄
  · simp [Slot.value, Slot.set, h₁, h₂, h₃, h₄, run_bind]
  rcases h₅ : (do (← data.item "q").toFloat : Except Exc F) with e | x₅ <;>
    simp [Slot.value, Slot.set, h₁, h₂, h₃, h₄, h₅, run_bind, stageSlots]

/-! ### A stretch of slots -/

variable {data : Dict F} {is : List Slot}

theorem get_stageSlots_of_notMem {j : Slot} (h : j ∉ is) (d : SymbolData F) :
    j.get ((stageSlots data is).run d).state = j.get d := by
  induction is generalizing d with
  | nil => rfl
  | cons i is ih =>
    rw [List.mem_cons, not_or] at h
    rw [run_stageSlots_cons]
    cases i.value data with
    | error => rfl
    | ok x => exact (ih h.2 _).trans (Slot.get_set_of_ne h.1 x d)

/-- Staging leaves the rest of the trade alone. -/
theorem idle_stageSlots (data : Dict F) (is : List Slot) (d : SymbolData F) :
    ((stageSlots data is).run d).state.fsm = d.fsm ∧
      ((stageSlots data is).run d).state.orders = d.orders ∧
      ((stageSlots data is).run d).state.running = d.running := by
  induction is generalizing d with
  | nil => exact ⟨rfl, rfl, rfl⟩
  | cons i is ih =>
    rw [run_stageSlots_cons]
    cases i.value data with
    | error => exact ⟨rfl, rfl, rfl⟩
    | ok x =>
      have hset : (i.set x d).fsm = d.fsm ∧ (i.set x d).orders = d.orders ∧
          (i.set x d).running = d.running := by
        cases i <;> exact ⟨rfl, rfl, rfl⟩
      obtain ⟨hf, ho, hr⟩ := ih (i.set x d)
      exact ⟨hf.trans hset.1, ho.trans hset.2.1, hr.trans hset.2.2⟩

theorem error_stageSlots (data : Dict F) (is : List Slot) (d : SymbolData F) :
    ((stageSlots data is).run d).error = none ↔ ∀ i ∈ is, ∃ x, i.value data = .ok x := by
  induction is generalizing d with
  | nil => simp [stageSlots]
  | cons i is ih =>
    rw [run_stageSlots_cons, List.forall_mem_cons]
    cases hv : i.value data with
    | error => simp
    | ok x => simp [ih]

theorem get_stageSlots_iff (hn : is.Nodup) (d : SymbolData F) :
    (∀ i : Slot, i.get ((stageSlots data is).run d).state = i.get d) ↔ ¬Differs data d is := by
  induction is generalizing d with
  | nil => simp [stageSlots, Differs]
  | cons i is ih =>
    obtain ⟨hi, hn⟩ := List.nodup_cons.mp hn
    rw [run_stageSlots_cons, Differs]
    cases hv : i.value data with
    | error => simp
    | ok x =>
      by_cases hx : x = i.get d
      · -- the value is the one that stands there
        have hset : i.set x d = d := hx ▸ i.set_get d
        simp only [hset, ih hn d, Except.ok.injEq, exists_eq_left']
        simp [hx]
      · have hget : i.get ((stageSlots data is).run (i.set x d)).state = x :=
          (get_stageSlots_of_notMem hi _).trans (i.get_set_self x d)
        constructor
        · exact fun h => absurd (hget.symm.trans (h i)) hx
        · exact fun h => absurd ⟨x, rfl, .inl hx⟩ h

/-! ### A trade-data message -/

/-- The message changes what is staged, or gets the symbol ready. -/
def Restages (data : Dict F) (d : SymbolData F) : Prop :=
  Differs data d Slot.all ∨
    (∀ i ∈ Slot.all, ∃ x, i.value data = .ok x) ∧ d.running = false ∧ d.fsm ≠ .READY ∧ d.fsm ≠ .STOP

omit [Runtime F] in
theorem lookup_set_of_ne {key key' : String} (h : key' ≠ key) (data : Dict F) (j : Json F) :
    (data.set key j).lookup key' = data.lookup key' := by
  unfold Dict.set
  split
  · clear * - h
    induction data with
    | nil => rfl
    | cons kv data ih =>
      obtain ⟨k, v⟩ := kv
      rw [List.map_cons]
      by_cases hk : k = key
      · rw [if_pos (beq_iff_eq.mpr hk), hk, lookup_cons_eq, lookup_cons_eq, if_neg h, if_neg h, ih]
      · rw [if_neg (beq_iff_eq.not.mpr hk), lookup_cons_eq, lookup_cons_eq, ih]
  · rw [List.lookup_append, lookup_cons_eq, if_neg h]
    simp

omit [Runtime F] in
theorem item_set_of_ne {key key' : String} (h : key' ≠ key) (data : Dict F) (j : Json F) :
    (data.set key j).item key' = data.item key' := by
  unfold Dict.item
  rw [lookup_set_of_ne h]

theorem value_set_e (data : Dict F) (j : Json F) (i : Slot) :
    i.value (data.set "e" j) = i.value data := by
  cases i <;> simp only [Slot.value, legValue, item_set_of_ne (show "B" ≠ "e" by decide),
    item_set_of_ne (show "S" ≠ "e" by decide), item_set_of_ne (show "q" ≠ "e" by decide)]

theorem differs_set_e (data : Dict F) (j : Json F) (d : SymbolData F) (is : List Slot) :
    Differs (data.set "e" j) d is ↔ Differs data d is := by
  induction is with
  | nil => exact Iff.rfl
  | cons i is ih => simp only [Differs, value_set_e, ih]

omit [Runtime F] in
theorem staged_banner (x a m : String) (d : SymbolData F) :
    (d.banner x a m).staged = d.staged := rfl

/-- The end state is never left, and any other makes room for the ready state. -/
def readied (st : FsmState) : FsmState := if st = .STOP then .STOP else .READY

theorem staged_markReady (d : SymbolData F) :
    (markReady.run d).state.staged = { d with fsm := readied d.fsm }.staged := by
  by_cases hs : d.fsm = .STOP
  · simp [markReady, run_bind, fsmRun, hs, SymbolData.staged, readied]
  · simp [markReady, run_bind, fsmRun, fsmReady, hs, SymbolData.staged, readied]

theorem readied_eq_iff (st : FsmState) : readied st = st ↔ ¬(st ≠ .READY ∧ st ≠ .STOP) := by
  cases st <;> decide

/-- What staging all values leaves of the staged part. -/
theorem staged_stageData (data : Dict F) (d : SymbolData F) {d' : SymbolData F}
    (h : ((stageData data).run d).state = d') :
    d'.running = d.running ∧ d'.fsm = d.fsm ∧ ∀ st, { d' with fsm := st }.staged = d.staged ↔
      ¬Differs data d Slot.all ∧ st = d.fsm := by
  rw [run_stageData] at h
  obtain ⟨hf, ho, hr⟩ := idle_stageSlots data Slot.all d
  have hg : (∀ i : Slot, i.get ((stageSlots data Slot.all).run d).state = i.get d) ↔
      ¬Differs data d Slot.all := get_stageSlots_iff (by decide) d
  rw [h] at hf ho hr hg
  refine ⟨hr, hf, fun st => ?_⟩
  have hs : (∀ i : Slot, i.get { d' with fsm := st } = i.get d) ↔ ∀ i : Slot, i.get d' = i.get d :=
    forall_congr' fun i => by cases i <;> exact Iff.rfl
  rw [staged_eq_iff, hs, hg]
  simp [ho]

theorem staged_onTradeData (data : Dict F) (d : SymbolData F) :
    ((onTradeData data).run d).state.staged = d.staged ↔
      ¬(data.item "a" = .ok (.str "set") ∧ Restages data d) := by
  unfold onTradeData
  rw [state_bind_quiet fun _ _ => rfl, state_tryExcept_quiet fun _ => rfl,
    item_set_of_ne (by decide)]
  rcases ha : data.item "a" with x | a
  · simp [run_bind]
  rw [run_bind_done (run_attempt_ok a d), Outcome.after_nil]
  by_cases hset : a.isStr "set" = true
  · obtain rfl := isStr_eq_true.mp hset
    obtain ⟨hr, hf, hs⟩ := staged_stageData (data.set "e" (.str "tradeData")) d rfl
    have he := error_stageSlots (data.set "e" (.str "tradeData")) Slot.all d
    rw [← run_stageData] at he
    simp only [value_set_e, differs_set_e] at hs he
    rw [if_pos hset, run_bind]
    rcases hrun : (stageData (data.set "e" (.str "tradeData"))).run d with ⟨u, d', o⟩ | ⟨x, d', o⟩
    · rw [hrun] at hr hf hs he
      have hall : ∀ i ∈ Slot.all, ∃ x, i.value data = .ok x := he.mp rfl
      simp only [Outcome.state_done] at hr hf hs
      simp only [Outcome.state_after]
      rw [run_bind_done (run_self d'), Outcome.after_nil, hr]
      by_cases hrun : d.running = false
      · rw [if_pos hrun, state_bind_quiet fun _ _ => rfl, staged_markReady, hs, hf, readied_eq_iff]
        simp only [Restages, hrun, true_and, not_or]
        tauto
      · rw [if_neg hrun, state_bind_quiet fun _ _ => rfl, run_update, Outcome.state_done,
          staged_banner]
        have hd : d'.staged = d.staged ↔ _ := hs d'.fsm
        rw [hd]
        simp [Restages, hrun, hf]
    · rw [hrun] at hr hf hs he
      have hall : ¬∀ i ∈ Slot.all, ∃ x, i.value data = .ok x := fun h => by simpa using he.mpr h
      simp only [Outcome.state_raised] at hf hs
      have hd : d'.staged = d.staged ↔ _ := hs d'.fsm
      rw [Outcome.state_raised, hd]
      simp [Restages, hall, hf]
  · rw [if_neg hset]
    have hne : a ≠ .str "set" := fun h => hset (isStr_eq_true.mpr h)
    simp [run_bind, sendTradeState, hne]

end BotTrader.Strategy
