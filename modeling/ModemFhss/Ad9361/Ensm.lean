import ModemFhss.Library.Machine
import ModemFhss.Ad9361.Pll

/-!
# The state machine of the transceiver (`ad9361_ensm_set_state` and the others)

The transceiver has a state machine of its own, the ENSM: alert, receiving, transmitting, both, or
waiting. The driver moves it with `REG_ENSM_CONFIG_1`, or leaves it to two pins, and reads where it
is in `REG_STATE`. A program asks for a mode with `ad9361_set_en_state_machine_mode`. What needs the
alert state (calibrations, filters) is put between `ad9361_ensm_force_state` and
`ad9361_ensm_restore_prev_state`, which keep in the private structure what they have to restore.

The device may change its state whenever it likes; of its registers it only has to keep
`REG_ENSM_CONFIG_1`.

* `bracket_config1` — what forcing and restoring make of that register.
* `run_pinsMatch_iff` — in which runs the pins have the control when the mode gives it to them.
* `getEnStateMachineMode_run` — the mode that is read is the one that was last accepted.
* `run_stateAllowed_iff` — which requests lead to a state that the duplex mode does not allow.
-/

namespace ModemFhss.Ad9361

open Errno Machine

variable {σ : Type*}

/-! ## The driver -/

def regClockEnable : BitVec 32 := 0x009#32

def regEnsmMode : BitVec 32 := 0x013#32

def regEnsmConfig1 : BitVec 32 := 0x014#32

def regEnsmConfig2 : BitVec 32 := 0x015#32

def regState : BitVec 32 := 0x017#32

def regSmallLmtOverloadThresh : BitVec 32 := 0x107#32

/-- `ENSM_STATE(~0)` -/
def ensmStateMask : BitVec 32 := 0x0F#32

/-! ### Bits of `REG_ENSM_CONFIG_1` -/

def enableRxDataPortForCal : BitVec 32 := 1#32 <<< 7

def forceRxOn : BitVec 32 := 1#32 <<< 6

def forceTxOn : BitVec 32 := 1#32 <<< 5

def enableEnsmPinCtrl : BitVec 32 := 1#32 <<< 4

def levelMode : BitVec 32 := 1#32 <<< 3

def forceAlertState : BitVec 32 := 1#32 <<< 2

def toAlert : BitVec 32 := 1#32

/-! ### States -/

def ensmStateSleepWait : Byte := 0x0#8

def ensmStateAlert : Byte := 0x5#8

def ensmStateTx : Byte := 0x6#8

def ensmStateRx : Byte := 0x8#8

def ensmStateFdd : Byte := 0xA#8

def ensmStateSleep : Byte := 0x80#8

/-- Of `struct ad9361_rf_phy`, and of the platform data in it. -/
structure EnsmPhy where
  fdd : Bool
  fddIndependentMode : Bool
  ensmPinPulseMode : Bool
  useExtclk : Bool
  tddUseDualSynth : Bool
  txmonTddEn : Bool
  agcMode : Byte × Byte
  prevEnsmState : Byte
  currEnsmState : Byte
  ensmPinCtlEn : Bool
  deriving DecidableEq

/-- `RF_GAIN_MGC` -/
def rfGainMgc : Byte := 0#8

/-- The `switch` of `ad9361_ensm_force_state`. -/
def forcedVal (ensmState : Byte) (val : BitVec 32) : Option (BitVec 32) :=
  if ensmState = ensmStateTx ∨ ensmState = ensmStateFdd then some (val ||| forceTxOn) else
  if ensmState = ensmStateRx then some (val ||| forceRxOn) else
  if ensmState = ensmStateAlert then
    some (val &&& ~~~(forceTxOn ||| forceRxOn) ||| (toAlert ||| forceAlertState)) else
  none

def ensmForceState (c : Chip σ) (phy : EnsmPhy) (s : σ) (ensmState : Byte) : EnsmPhy × σ :=
  let (ret, s) := c.spiReadf s regState ensmStateMask
  let devEnsmState := BitVec.ofInt 8 ret
  let phy := { phy with prevEnsmState := devEnsmState }
  if devEnsmState = ensmState then (phy, s) else
  let (ret, s) := c.spiRead s regEnsmConfig1
  let val := BitVec.ofInt 32 ret
  let phy := { phy with ensmPinCtlEn := val &&& enableEnsmPinCtrl ≠ 0#32 }
  let val := if val &&& enableEnsmPinCtrl ≠ 0#32 then val &&& ~~~enableEnsmPinCtrl else val
  let val := if devEnsmState ≠ 0#8 then val &&& ~~~toAlert else val
  match forcedVal ensmState val with
  | none => (phy, s)
  | some val =>
    let s := (c.spiWrite s regEnsmConfig1 (toAlert ||| forceAlertState)).2
    (phy, (c.spiWrite s regEnsmConfig1 val).2)

/-- The `switch` of `ad9361_ensm_restore_prev_state`. -/
def restoredVal (prevEnsmState : Byte) (val : BitVec 32) : Option (BitVec 32) :=
  if prevEnsmState = ensmStateTx ∨ prevEnsmState = ensmStateFdd then some (val ||| forceTxOn) else
  if prevEnsmState = ensmStateRx then some (val ||| forceRxOn) else
  if prevEnsmState = ensmStateAlert then some (val ||| toAlert) else
  none

def ensmRestorePrevState (c : Chip σ) (phy : EnsmPhy) (s : σ) : σ :=
  let (ret, s) := c.spiRead s regEnsmConfig1
  let val := BitVec.ofInt 32 ret &&& ~~~(forceTxOn ||| forceRxOn ||| toAlert ||| forceAlertState)
  match restoredVal phy.prevEnsmState val with
  | none => s
  | some val =>
    let s := (c.spiWrite s regEnsmConfig1 (toAlert ||| forceAlertState)).2
    let (rc, s) := c.spiWrite s regEnsmConfig1 val
    if rc ≠ 0 then s else
    if phy.ensmPinCtlEn then (c.spiWrite s regEnsmConfig1 (val ||| enableEnsmPinCtrl)).2 else s

def trxVcoCalControl (c : Chip σ) (s : σ) (tx enable : Bool) : σ :=
  (c.spiWritef s (if tx then 0x270#32 else 0x230#32) 1#32 (if enable then 0#32 else 1#32)).2

def xoBypass (phy : EnsmPhy) : BitVec 32 := if phy.useExtclk then 1#32 <<< 4 else 0#32

/-- Out of the sleep, before anything else. -/
def ensmWake (c : Chip σ) (phy : EnsmPhy) (s : σ) : σ :=
  let s := (c.spiWrite s regClockEnable (1#32 <<< 2 ||| 1#32 <<< 1 ||| 1#32 ||| xoBypass phy)).2
  let s := (c.spiWrite s regEnsmConfig1 (toAlert ||| forceAlertState)).2
  let s := trxVcoCalControl c s false true
  trxVcoCalControl c s true true

/-- The case `ENSM_STATE_SLEEP`, less the delays. -/
def ensmSleep (c : Chip σ) (phy : EnsmPhy) (s : σ) : σ :=
  let s := trxVcoCalControl c s false false
  let s := trxVcoCalControl c s true false
  let s := (c.spiWrite s regEnsmConfig1 0#32).2
  let s := (c.spiWrite s regEnsmConfig1 (if phy.fdd then forceTxOn else forceRxOn)).2
  let s := (c.spiWrite s regEnsmConfig1 0#32).2
  (c.spiWrite s regClockEnable (xoBypass phy)).2

/-- The other cases, to `rc` and `val`; none is the `default`. -/
def requestedVal (phy : EnsmPhy) (ensmState : Byte) (val : BitVec 32) : Option (Int × BitVec 32) :=
  let alertOnly : Int :=
    if phy.fdd then -einval else if phy.currEnsmState ≠ ensmStateAlert then -einval else 0
  if ensmState = ensmStateTx then some (alertOnly, val ||| forceTxOn) else
  if ensmState = ensmStateRx then some (alertOnly, val ||| forceRxOn) else
  if ensmState = ensmStateFdd then some (if phy.fdd then 0 else -einval, val ||| forceTxOn) else
  if ensmState = ensmStateAlert then
    some (0, val &&& ~~~(forceTxOn ||| forceRxOn) ||| (toAlert ||| forceAlertState)) else
  if ensmState = ensmStateSleepWait then some (0, val) else
  none

/-- The pin of the synthesizers, where they are not both on. -/
def setTxnrx (c : Chip σ) (phy : EnsmPhy) (s : σ) (ensmState : Byte) (pinctrl : Bool) : σ :=
  if !phy.fdd && !pinctrl && !phy.tddUseDualSynth &&
      (ensmState == ensmStateTx || ensmState == ensmStateRx) then
    let tx := ensmState == ensmStateTx
    let s := (c.spiWritef s regEnsmConfig2 (1#32 <<< 4) (if tx then 1#32 else 0#32)).2
    (checkCalDone c (if tx then 0x287#32 else 0x247#32) (1#32 <<< 1) 1#32 5000 s).2
  else s

/-- The detectors of the receivers with manual gain. -/
def resetDetectors (c : Chip σ) (phy : EnsmPhy) (s : σ) (val : BitVec 32) : σ :=
  if val &&& forceRxOn ≠ 0#32 ∧ (phy.agcMode.1 = rfGainMgc ∨ phy.agcMode.2 = rfGainMgc) then
    let (ret, s) := c.spiRead s regSmallLmtOverloadThresh
    let tmp := BitVec.ofInt 32 ret &&& 0x3F#32
    let s := (c.spiWrite s regSmallLmtOverloadThresh (tmp |||
      (if phy.agcMode.1 = rfGainMgc then 1#32 <<< 6 else 0#32) |||
      (if phy.agcMode.2 = rfGainMgc then 1#32 <<< 7 else 0#32))).2
    (c.spiWrite s regSmallLmtOverloadThresh tmp).2
  else s

/-- `val` before the `switch`. -/
def ensmVal (phy : EnsmPhy) (pinctrl : Bool) : BitVec 32 :=
  (if phy.ensmPinPulseMode then 0#32 else levelMode) |||
    (if pinctrl then enableEnsmPinCtrl else 0#32) |||
    (if phy.txmonTddEn then enableRxDataPortForCal else 0#32) ||| toAlert

def ensmSetState (c : Chip σ) (phy : EnsmPhy) (s : σ) (ensmState : Byte) (pinctrl : Bool) :
    Int × EnsmPhy × σ :=
  let s := if phy.currEnsmState = ensmStateSleep then ensmWake c phy s else s
  if ensmState = ensmStateSleep then
    (0, { phy with currEnsmState := ensmState }, ensmSleep c phy s) else
  match requestedVal phy ensmState (ensmVal phy pinctrl) with
  | none => (0, phy, s)
  | some (rc, val) =>
    let passes : Bool :=
      phy.currEnsmState ≠ ensmStateAlert ∧ val &&& (forceRxOn ||| forceTxOn) ≠ 0#32
    if rc ≠ 0 ∧ passes = false then (rc, phy, s) else
    -- through the alert state
    let s :=
      if rc ≠ 0 then
        let val2 := val &&& ~~~(forceTxOn ||| forceRxOn) ||| (toAlert ||| forceAlertState)
        let s := (c.spiWrite s regEnsmConfig1 val2).2
        (checkCalDone c regState ensmStateMask (ensmStateAlert.setWidth 32) 5000 s).2
      else s
    let s := setTxnrx c phy s ensmState pinctrl
    let (rc, s) := c.spiWrite s regEnsmConfig1 val
    (rc, { phy with currEnsmState := ensmState }, resetDetectors c phy s val)

def setEnsmMode (c : Chip σ) (phy : EnsmPhy) (s : σ) (fdd pinctrl : Bool) : Int × σ :=
  let s := (c.spiWrite s regEnsmMode (if fdd then 1#32 else 0#32)).2
  let (ret, s) := c.spiRead s regEnsmConfig2
  let val := BitVec.ofInt 32 ret &&& (1#32 <<< 6 ||| 1#32 <<< 5)
  let dualSynthMode : BitVec 32 := 1#32 <<< 2
  if fdd then
    c.spiWrite s regEnsmConfig2
      (val ||| dualSynthMode ||| (if phy.fddIndependentMode then 1#32 <<< 7 else 0#32))
  else
    c.spiWrite s regEnsmConfig2 (val ||| (if phy.tddUseDualSynth then dualSynthMode else 0#32) |||
      (if phy.tddUseDualSynth then 0#32 else if pinctrl then 1#32 <<< 3 else 0#32))

/-- `ENSM_MODE_TX` and so on. -/
inductive EnsmMode where
  | tx
  | rx
  | alert
  | fdd
  | wait
  | sleep
  | pinctrl
  | pinctrlFddIndep
  deriving DecidableEq

namespace EnsmMode

/-- The `switch` of `ad9361_set_en_state_machine_mode`. -/
def state : EnsmMode → Byte
  | tx => ensmStateTx
  | rx => ensmStateRx
  | alert => ensmStateAlert
  | fdd => ensmStateFdd
  | wait => ensmStateSleepWait
  | sleep => ensmStateSleep
  | pinctrl => ensmStateSleepWait
  | pinctrlFddIndep => ensmStateFdd

end EnsmMode

/-- The mode is a number; `none` is any other. -/
def setEnStateMachineMode (c : Chip σ) (phy : EnsmPhy) (s : σ) (mode : Option EnsmMode) :
    Int × EnsmPhy × σ :=
  let phy := { phy with fddIndependentMode := false }
  match mode with
  | none => (-einval, phy, s)
  | some m =>
    let pinctrl := decide (m = .pinctrl)
    let phy := { phy with fddIndependentMode := decide (m = .pinctrlFddIndep) }
    let s := (setEnsmMode c phy s phy.fdd pinctrl).2
    ensmSetState c phy s m.state pinctrl

def getEnStateMachineMode (c : Chip σ) (phy : EnsmPhy) (s : σ) : Except Int EnsmMode × σ :=
  let (ret, s) := c.spiRead s regState
  let ensmState := BitVec.ofInt 8 ret &&& ensmStateMask.setWidth 8
  let (ret, s) := c.spiRead s regEnsmConfig1
  let pinctrl := BitVec.ofInt 32 ret &&& enableEnsmPinCtrl = enableEnsmPinCtrl
  let mode : Except Int EnsmMode :=
    if ensmState = ensmStateTx then .ok .tx else
    if ensmState = ensmStateRx then .ok .rx else
    if ensmState = ensmStateAlert then .ok .alert else
    if ensmState = ensmStateFdd then
      .ok (if phy.fddIndependentMode then .pinctrlFddIndep else .fdd) else
    if ensmState = ensmStateSleepWait then .ok (if pinctrl then .pinctrl else .wait) else
    if ensmState = ensmStateSleep then .ok .sleep else
    .error (-einval)
  (mode, s)

/-! ## The register -/

/-- The device follows its instructions, and keeps `REG_ENSM_CONFIG_1`. -/
abbrev KeepsEnsm (c : Chip σ) (regs : σ → BitVec 10 → Byte) : Prop := c.Keeps regs (· = 0x014#10)

def config1 (regs : σ → BitVec 10 → Byte) (s : σ) : Byte := regs s 0x014#10

/-- The pins have the control. -/
def pinControl (regs : σ → BitVec 10 → Byte) (s : σ) : Bool := (config1 regs s).getLsbD 4

/-- The state that `ad9361_ensm_force_state` finds. -/
def devState (c : Chip σ) (s : σ) : Byte := BitVec.ofInt 8 (c.spiReadf s regState ensmStateMask).1

section Register

variable {c : Chip σ} {regs : σ → BitVec 10 → Byte} {s : σ} {phy : EnsmPhy} {reg val : BitVec 32}
  {b : Byte} {ensmState : Byte} {pinctrl : Bool}

theorem config1_spiWrite (hc : KeepsEnsm c regs) :
    config1 regs (c.spiWrite s regEnsmConfig1 val).2 = val.setWidth 8 :=
  ((hc.spiWrite _ _ _).2 _ rfl).trans (Function.update_self ..)

theorem config1_spiWrite_of_ne (hc : KeepsEnsm c regs) (hreg : reg.setWidth 10 ≠ 0x014#10) :
    config1 regs (c.spiWrite s reg val).2 = config1 regs s :=
  ((hc.spiWrite _ _ _).2 _ rfl).trans (Function.update_of_ne (Ne.symm hreg) _ _)

theorem config1_spiRead (hc : KeepsEnsm c regs) (reg : BitVec 32) :
    config1 regs (c.spiRead s reg).2 = config1 regs s := by
  have hkeeps := (hc.spiReadm (by decide : 0 < 1) (by decide : 1 ≤ maxMbyteSpi) s reg).2.1 _ rfl
  unfold Chip.spiRead
  dsimp only
  split <;> exact hkeeps

theorem config1_spiReadf (hc : KeepsEnsm c regs) (reg mask : BitVec 32) :
    config1 regs (c.spiReadf s reg mask).2 = config1 regs s := spiReadf_keeps hc s reg mask rfl

theorem ofInt_byte (b : Byte) : BitVec.ofInt 32 (b.toNat : Int) = b.setWidth 32 := by
  rw [BitVec.ofInt_natCast]
  exact BitVec.eq_of_toNat_eq (by rw [BitVec.toNat_ofNat, BitVec.toNat_setWidth])

theorem spiRead_config1 (hc : KeepsEnsm c regs) :
    BitVec.ofInt 32 (c.spiRead s regEnsmConfig1).1 = (config1 regs s).setWidth 32 := by
  have hread : (c.spiRead s regEnsmConfig1).1 = ((config1 regs s).toNat : Int) :=
    (hc.spiRead rfl).1
  rw [hread, ofInt_byte]

/-! ### Forcing and restoring -/

/-- The bits for the states that are restored. -/
def restoredBits (prevEnsmState : Byte) : Option Byte :=
  if prevEnsmState = ensmStateTx ∨ prevEnsmState = ensmStateFdd then some 0x20#8 else
  if prevEnsmState = ensmStateRx then some 0x40#8 else
  if prevEnsmState = ensmStateAlert then some 0x01#8 else
  none

theorem restoredVal_eq :
    restoredVal b val = (restoredBits b).map fun bits => val ||| bits.setWidth 32 := by
  unfold restoredVal restoredBits
  split_ifs <;> rfl

/-- What is written to force the alert state. -/
theorem forced_config1 (hstate : b ≠ 0#8 ∨ b = 0#8) : ∀ v : Byte,
    let val := v.setWidth 32
    let val := if val &&& enableEnsmPinCtrl ≠ 0#32 then val &&& ~~~enableEnsmPinCtrl else val
    let val := if b ≠ 0#8 then val &&& ~~~toAlert else val
    (val &&& ~~~(forceTxOn ||| forceRxOn) ||| (toAlert ||| forceAlertState)).setWidth 8 =
      v &&& 0x8F#8 ||| 0x05#8 := by
  rcases hstate with h | h
  · simp only [if_pos h]
    decide +kernel
  · simp only [h, ne_eq, not_true_eq_false, if_false]
    decide +kernel

theorem pin_bit : ∀ v : Byte,
    decide (v.setWidth 32 &&& enableEnsmPinCtrl ≠ 0#32) = v.getLsbD 4 := by
  decide +kernel

theorem forcedVal_alert : forcedVal ensmStateAlert val =
    some (val &&& ~~~(forceTxOn ||| forceRxOn) ||| (toAlert ||| forceAlertState)) := rfl

theorem ensmForceState_of_eq (h : devState c s = ensmState) :
    ensmForceState c phy s ensmState =
      ({ phy with prevEnsmState := devState c s }, (c.spiReadf s regState ensmStateMask).2) := by
  unfold ensmForceState
  dsimp only
  exact if_pos h

theorem ensmForceState_alert (phy : EnsmPhy) (hc : KeepsEnsm c regs)
    (h : devState c s ≠ ensmStateAlert) :
    (ensmForceState c phy s ensmStateAlert).1 =
      { phy with prevEnsmState := devState c s, ensmPinCtlEn := pinControl regs s } ∧
    config1 regs (ensmForceState c phy s ensmStateAlert).2 =
      config1 regs s &&& 0x8F#8 ||| 0x05#8 := by
  have hread : BitVec.ofInt 32
      (c.spiRead (c.spiReadf s regState ensmStateMask).2 regEnsmConfig1).1 =
      (config1 regs s).setWidth 32 := by
    rw [spiRead_config1 hc, config1_spiReadf hc]
  unfold ensmForceState
  dsimp only
  rw [if_neg (show ¬ BitVec.ofInt 8 (c.spiReadf s regState ensmStateMask).1 = _ from h), hread,
    forcedVal_alert, pin_bit]
  refine ⟨rfl, ?_⟩
  rw [config1_spiWrite hc]
  exact forced_config1 (ne_or_eq _ _) _

theorem config1_ensmRestorePrevState (hc : KeepsEnsm c regs) :
    config1 regs (ensmRestorePrevState c phy s) =
      match restoredBits phy.prevEnsmState with
      | none => config1 regs s
      | some bits =>
        config1 regs s &&& 0x9A#8 ||| bits ||| if phy.ensmPinCtlEn then 0x10#8 else 0#8 := by
  have hok : ∀ (s : σ) (reg val : BitVec 32), (c.spiWrite s reg val).1 = 0 :=
    fun s reg val => (hc.spiWrite s reg val).1
  have hval : ∀ v bits : Byte,
      ((v.setWidth 32 &&& ~~~(forceTxOn ||| forceRxOn ||| toAlert ||| forceAlertState)) |||
        bits.setWidth 32).setWidth 8 = v &&& 0x9A#8 ||| bits := by
    intro v bits
    rw [BitVec.setWidth_or, BitVec.setWidth_and, BitVec.setWidth_setWidth_of_le _ (by decide),
      BitVec.setWidth_eq, BitVec.setWidth_setWidth_of_le _ (by decide), BitVec.setWidth_eq]
    rfl
  unfold ensmRestorePrevState
  dsimp only
  rw [spiRead_config1 hc, restoredVal_eq]
  cases hbits : restoredBits phy.prevEnsmState with
  | none => exact config1_spiRead hc _
  | some bits =>
    simp only [Option.map_some]
    rw [hok, if_neg (not_not.mpr rfl)]
    split
    · rw [config1_spiWrite hc, BitVec.setWidth_or, hval]
      rfl
    · rw [config1_spiWrite hc, hval, BitVec.or_zero]

/-- What stands between forcing and restoring, and what the device does on its own: it leaves
`REG_ENSM_CONFIG_1` and the records of the state alone. `ad9361_dig_tune` in TDD and a new
`ad9361_setup` do not. -/
structure Elsewhere (regs : σ → BitVec 10 → Byte) where
  run : σ → σ
  config1_run : ∀ s, config1 regs (run s) = config1 regs s

/-- `ad9361_load_fir_filter_coef`, `ad9361_do_calib_run` and the others, as far as the state machine
is concerned. -/
def bracket (c : Chip σ) (phy : EnsmPhy) (s : σ) (body : Elsewhere regs) : EnsmPhy × σ :=
  let (phy, s) := ensmForceState c phy s ensmStateAlert
  (phy, ensmRestorePrevState c phy (body.run s))

/-- The control that was taken from the pins is what they are given back. -/
theorem forced_restored : ∀ v : Byte,
    (v &&& 0x8F#8 ||| 0x05#8) &&& 0x9A#8 ||| (if v.getLsbD 4 then 0x10#8 else 0#8) =
      v &&& 0x9A#8 := by
  decide +kernel

/-- **What such a function leaves in the register**: of the states that can be restored the bits,
and the others as they were. But if the device was in the alert state already, the pins get the
control if an earlier call has taken it from them; and a state that cannot be restored stays the
alert state, without the pins. -/
theorem bracket_config1 (hc : KeepsEnsm c regs) (body : Elsewhere regs) :
    config1 regs (bracket c phy s body).2 =
      match restoredBits (devState c s) with
      | none => config1 regs s &&& 0x8F#8 ||| 0x05#8
      | some bits => config1 regs s &&& 0x9A#8 ||| bits |||
          if devState c s = ensmStateAlert ∧ phy.ensmPinCtlEn then 0x10#8 else 0#8 := by
  unfold bracket
  dsimp only
  rw [config1_ensmRestorePrevState hc, body.config1_run]
  by_cases h : devState c s = ensmStateAlert
  · rw [ensmForceState_of_eq h]
    dsimp only
    rw [config1_spiReadf hc, h]
    simp [restoredBits, ensmStateAlert, ensmStateTx, ensmStateFdd, ensmStateRx]
  · obtain ⟨hphy, hconfig⟩ := ensmForceState_alert phy hc h
    rw [hphy, hconfig]
    cases hbits : restoredBits (devState c s) with
    | none => rfl
    | some bits =>
      simp only [h, false_and, if_false, BitVec.or_zero, pinControl]
      rw [BitVec.or_assoc, BitVec.or_comm bits, ← BitVec.or_assoc]
      exact congrArg (· ||| bits) (forced_restored _)

/-- Receiving, with the pins in control. -/
def receiving (a : BitVec 10) : Byte :=
  if a = 0x014#10 then 0x58#8 else if a = 0x017#10 then ensmStateRx else 0#8

def tddPhy : EnsmPhy where
  fdd := false
  fddIndependentMode := false
  ensmPinPulseMode := false
  useExtclk := false
  tddUseDualSynth := true
  txmonTddEn := false
  agcMode := (0#8, 0#8)
  prevEnsmState := 0#8
  currEnsmState := ensmStateAlert
  ensmPinCtlEn := false

/-- Nothing else happens. -/
def nothing : Elsewhere (id : (BitVec 10 → Byte) → BitVec 10 → Byte) := ⟨id, fun _ => rfl⟩

example : config1 id (bracket registerFile tddPhy receiving nothing).2 = 0x58#8 := by
  decide +kernel

theorem bracket_phy (phy : EnsmPhy) (s : σ) (hc : KeepsEnsm c regs) (body : Elsewhere regs) :
    (bracket c phy s body).1 =
      { phy with
        prevEnsmState := devState c s
        ensmPinCtlEn :=
          if devState c s = ensmStateAlert then phy.ensmPinCtlEn else pinControl regs s } := by
  unfold bracket
  dsimp only
  by_cases h : devState c s = ensmStateAlert
  · rw [ensmForceState_of_eq h, if_pos h]
  · rw [(ensmForceState_alert phy hc h).1, if_neg h]

/-- Forcing the alert state takes the control from the pins. -/
theorem forced_bit : ∀ v : Byte, (v &&& 0x8F#8 ||| 0x05#8).getLsbD 4 = false := by
  decide +kernel

/-- Where the control is after such a function. -/
theorem bracket_pinControl (hc : KeepsEnsm c regs) (body : Elsewhere regs) :
    pinControl regs (bracket c phy s body).2 =
      ((restoredBits (devState c s)).isSome && (pinControl regs s ||
        (decide (devState c s = ensmStateAlert) && phy.ensmPinCtlEn))) := by
  have hkeeps : ∀ v : Byte, (v &&& 0x9A#8).getLsbD 4 = v.getLsbD 4 := by
    decide +kernel
  have hbit : ∀ {d bits : Byte}, restoredBits d = some bits → bits.getLsbD 4 = false := by
    intro d bits h
    unfold restoredBits at h
    split_ifs at h
    all_goals cases h; rfl
  unfold pinControl
  rw [bracket_config1 hc]
  cases hbits : restoredBits (devState c s) with
  | none => exact forced_bit _
  | some bits =>
    rw [BitVec.getLsbD_or, BitVec.getLsbD_or, hkeeps, hbit hbits, Bool.or_false]
    by_cases h : devState c s = ensmStateAlert ∧ phy.ensmPinCtlEn = true
    · rw [if_pos h]
      simp [h.1, h.2]
    · rw [if_neg h]
      simp_all

/-- One of them is given up before the state is restored, as in `ad9361_update_rf_bandwidth`. -/
def abandoned (c : Chip σ) (phy : EnsmPhy) (s : σ) (body : Elsewhere regs) : EnsmPhy × σ :=
  let (phy, s) := ensmForceState c phy s ensmStateAlert
  (phy, body.run s)

theorem abandoned_phy (body : Elsewhere regs) :
    (abandoned c phy s body).1 = (bracket c phy s body).1 := rfl

theorem abandoned_pinControl (hc : KeepsEnsm c regs) (body : Elsewhere regs) :
    pinControl regs (abandoned c phy s body).2 =
      (decide (devState c s = ensmStateAlert) && pinControl regs s) := by
  unfold abandoned pinControl
  dsimp only
  rw [body.config1_run]
  by_cases h : devState c s = ensmStateAlert
  · rw [ensmForceState_of_eq h, config1_spiReadf hc]
    simp [h]
  · rw [(ensmForceState_alert phy hc h).2, forced_bit]
    simp [h]

/-! ### Requests -/

theorem config1_setEnsmMode (hc : KeepsEnsm c regs) (fdd pinctrl : Bool) :
    config1 regs (setEnsmMode c phy s fdd pinctrl).2 = config1 regs s := by
  have hreg : regEnsmMode.setWidth 10 ≠ 0x014#10 := by decide
  unfold setEnsmMode
  dsimp only
  split
  all_goals
    rw [config1_spiWrite_of_ne hc (by decide), config1_spiRead hc, config1_spiWrite_of_ne hc hreg]

theorem config1_resetDetectors (hc : KeepsEnsm c regs) :
    config1 regs (resetDetectors c phy s val) = config1 regs s := by
  unfold resetDetectors
  split
  · dsimp only
    rw [config1_spiWrite_of_ne hc (by decide), config1_spiWrite_of_ne hc (by decide),
      config1_spiRead hc]
  · rfl

theorem config1_ensmSleep (hc : KeepsEnsm c regs) : config1 regs (ensmSleep c phy s) = 0#8 := by
  unfold ensmSleep
  rw [config1_spiWrite_of_ne hc (by decide), config1_spiWrite hc]
  rfl

end Register

/-! ## The modes

A request is refused if it is no mode, or if it comes in the alert mode and is for one that the
duplex mode does not allow. From any other mode the driver goes through the alert state and on to
what was asked for. -/

namespace EnsmMode

/-- Only with frequency division both directions are on at once. -/
def allowed (fdd : Bool) : EnsmMode → Bool
  | tx | rx => !fdd
  | .fdd | pinctrlFddIndep => fdd
  | alert | wait | sleep | pinctrl => true

def accepts (fdd : Bool) (m : EnsmMode) : Option EnsmMode → Bool
  | none => false
  | some m' => m ≠ alert || m'.allowed fdd

/-- The mode after a request. A number that is no mode clears `fdd_independent_mode`. -/
def next (fdd : Bool) (m : EnsmMode) : Option EnsmMode → EnsmMode
  | none => if m = pinctrlFddIndep then .fdd else m
  | some m' => if m.accepts fdd (some m') then m' else m

/-- The device has no state of its own for the sleep. -/
def reported : EnsmMode → EnsmMode
  | sleep => wait
  | m => m

end EnsmMode

section Requests

variable {c : Chip σ} {regs : σ → BitVec 10 → Byte} {s : σ} {phy : EnsmPhy} {m : EnsmMode}
  {pinctrl : Bool}

theorem ensmVal_bits (phy : EnsmPhy) (pinctrl : Bool) :
    ((ensmVal phy pinctrl).setWidth 8).getLsbD 4 = pinctrl ∧
    ((ensmVal phy pinctrl ||| forceTxOn).setWidth 8).getLsbD 4 = pinctrl ∧
    ((ensmVal phy pinctrl ||| forceRxOn).setWidth 8).getLsbD 4 = pinctrl ∧
    ((ensmVal phy pinctrl &&& ~~~(forceTxOn ||| forceRxOn) |||
      (toAlert ||| forceAlertState)).setWidth 8).getLsbD 4 = pinctrl ∧
    (ensmVal phy pinctrl ||| forceTxOn) &&& (forceRxOn ||| forceTxOn) ≠ 0#32 ∧
    (ensmVal phy pinctrl ||| forceRxOn) &&& (forceRxOn ||| forceTxOn) ≠ 0#32 := by
  unfold ensmVal
  generalize phy.ensmPinPulseMode = pulse
  generalize phy.txmonTddEn = txmon
  revert pulse pinctrl txmon
  decide

/-- The `switch`: the value that is written keeps to the pins, and the request is given up where the
mode does not accept it. -/
theorem requestedVal_spec (hm : m ≠ .sleep) (phy : EnsmPhy) (pinctrl : Bool) :
    ∃ rc val, requestedVal phy m.state (ensmVal phy pinctrl) = some (rc, val) ∧
      (val.setWidth 8).getLsbD 4 = pinctrl ∧
      (rc ≠ 0 → rc = -einval) ∧
      ((rc ≠ 0 ∧ decide (phy.currEnsmState ≠ ensmStateAlert ∧
          val &&& (forceRxOn ||| forceTxOn) ≠ 0#32) = false) ↔
        phy.currEnsmState = ensmStateAlert ∧ m.allowed phy.fdd = false) := by
  obtain ⟨hval, htx, hrx, halert, htxOn, hrxOn⟩ := ensmVal_bits phy pinctrl
  -- a value that turns something on passes through the alert state, unless it is in it
  have hpasses : ∀ {v : BitVec 32}, v &&& (forceRxOn ||| forceTxOn) ≠ 0#32 →
      (decide (phy.currEnsmState ≠ ensmStateAlert ∧ v &&& (forceRxOn ||| forceTxOn) ≠ 0#32) =
        false ↔ phy.currEnsmState = ensmStateAlert) := by
    intro v hv
    simp [hv]
  have halertOnly : phy.currEnsmState = ensmStateAlert →
      (if phy.fdd then -einval else if phy.currEnsmState ≠ ensmStateAlert then -einval else 0) =
        (if phy.fdd then -einval else 0) := by
    intro h
    rw [if_neg (not_not.mpr h)]
  cases m
  case tx =>
    refine ⟨_, _, rfl, htx, by split_ifs <;> simp, ?_⟩
    rw [hpasses htxOn, and_comm]
    refine and_congr_right fun h => ?_
    rw [halertOnly h]
    cases phy.fdd <;> simp [EnsmMode.allowed, einval]
  case rx =>
    refine ⟨_, _, rfl, hrx, by split_ifs <;> simp, ?_⟩
    rw [hpasses hrxOn, and_comm]
    refine and_congr_right fun h => ?_
    rw [halertOnly h]
    cases phy.fdd <;> simp [EnsmMode.allowed, einval]
  case fdd | pinctrlFddIndep =>
    refine ⟨_, _, rfl, htx, by split_ifs <;> simp, ?_⟩
    rw [hpasses htxOn, and_comm]
    cases phy.fdd <;> simp [EnsmMode.allowed, einval]
  case alert => exact ⟨_, _, rfl, halert, fun h => absurd rfl h, by simp [EnsmMode.allowed]⟩
  case wait | pinctrl =>
    exact ⟨_, _, rfl, hval, fun h => absurd rfl h, by simp [EnsmMode.allowed]⟩
  case sleep => exact absurd rfl hm

theorem ensmSetState_refused (c : Chip σ) (phy : EnsmPhy) (s : σ) (pinctrl : Bool)
    (hcurr : phy.currEnsmState = ensmStateAlert) (hm : m.allowed phy.fdd = false) :
    ensmSetState c phy s m.state pinctrl = (-einval, phy, s) := by
  have hsleep : m ≠ .sleep := by
    rintro rfl
    cases hm
  obtain ⟨rc, val, hval, -, hrc, hgives⟩ := requestedVal_spec hsleep phy pinctrl
  have hgiven := hgives.mpr ⟨hcurr, hm⟩
  have hstate : m.state ≠ ensmStateSleep := by
    cases m <;> first | decide | exact absurd rfl hsleep
  have hawake : phy.currEnsmState ≠ ensmStateSleep := by
    rw [hcurr]
    decide
  unfold ensmSetState
  dsimp only
  rw [if_neg hawake, if_neg hstate, hval]
  dsimp only
  rw [if_pos hgiven, hrc hgiven.1]

theorem ensmSetState_accepted (phy : EnsmPhy) (hc : KeepsEnsm c regs)
    (h : ¬ (phy.currEnsmState = ensmStateAlert ∧ m.allowed phy.fdd = false))
    (hpins : m = .sleep → pinctrl = false) :
    (ensmSetState c phy s m.state pinctrl).1 = 0 ∧
    (ensmSetState c phy s m.state pinctrl).2.1 = { phy with currEnsmState := m.state } ∧
    pinControl regs (ensmSetState c phy s m.state pinctrl).2.2 = pinctrl := by
  unfold ensmSetState
  dsimp only
  by_cases hsleep : m = .sleep
  · rw [if_pos (show m.state = ensmStateSleep by rw [hsleep]; rfl)]
    refine ⟨rfl, rfl, ?_⟩
    rw [pinControl, config1_ensmSleep hc, hpins hsleep]
    rfl
  · obtain ⟨rc, val, hval, hbit, -, hgives⟩ := requestedVal_spec hsleep phy pinctrl
    have hstate : m.state ≠ ensmStateSleep := by
      cases m <;> first | decide | exact absurd rfl hsleep
    rw [if_neg hstate, hval]
    dsimp only
    rw [if_neg (fun hgiven => h (hgives.mp hgiven))]
    refine ⟨(hc.spiWrite _ _ _).1, rfl, ?_⟩
    rw [pinControl, config1_resetDetectors hc, config1_spiWrite hc, hbit]

/-- The private structure with the mode of the pins. -/
def EnsmPhy.withIndep (phy : EnsmPhy) (m : EnsmMode) : EnsmPhy :=
  { phy with fddIndependentMode := decide (m = .pinctrlFddIndep) }

theorem setEnStateMachineMode_some : setEnStateMachineMode c phy s (some m) =
    ensmSetState c (phy.withIndep m)
      (setEnsmMode c (phy.withIndep m) s phy.fdd (decide (m = .pinctrl))).2 m.state
      (decide (m = .pinctrl)) := rfl

theorem setEnStateMachineMode_refused (hc : KeepsEnsm c regs)
    (hcurr : phy.currEnsmState = ensmStateAlert) (hm : m.allowed phy.fdd = false) :
    (setEnStateMachineMode c phy s (some m)).1 = -einval ∧
    (setEnStateMachineMode c phy s (some m)).2.1 = phy.withIndep m ∧
    config1 regs (setEnStateMachineMode c phy s (some m)).2.2 = config1 regs s := by
  have hrefused := ensmSetState_refused c (phy.withIndep m)
    (setEnsmMode c (phy.withIndep m) s phy.fdd (decide (m = .pinctrl))).2
    (decide (m = .pinctrl)) hcurr hm
  rw [setEnStateMachineMode_some, hrefused]
  exact ⟨rfl, rfl, config1_setEnsmMode hc _ _⟩

theorem setEnStateMachineMode_accepted (hc : KeepsEnsm c regs)
    (h : ¬ (phy.currEnsmState = ensmStateAlert ∧ m.allowed phy.fdd = false)) :
    (setEnStateMachineMode c phy s (some m)).1 = 0 ∧
    (setEnStateMachineMode c phy s (some m)).2.1 =
      { phy.withIndep m with currEnsmState := m.state } ∧
    pinControl regs (setEnStateMachineMode c phy s (some m)).2.2 = decide (m = .pinctrl) := by
  rw [setEnStateMachineMode_some]
  exact ensmSetState_accepted (phy.withIndep m) hc h (by rintro rfl; rfl)

end Requests

/-! ## Runs -/

/-- The driver, the device, and the mode that was last accepted. -/
structure EnsmSystem (σ : Type*) where
  phy : EnsmPhy
  chip : σ
  mode : EnsmMode

/-- What can happen: a program asks for a mode, one of the functions runs that need the alert state,
to its end or not, or something else does. -/
inductive EnsmEvent (regs : σ → BitVec 10 → Byte) where
  | request (mode : Option EnsmMode)
  | bracket (body : Elsewhere regs)
  | abandoned (body : Elsewhere regs)
  | elsewhere (f : Elsewhere regs) (txmonTddEn : Bool) (agcMode : Byte × Byte)

namespace EnsmSystem

variable {c : Chip σ} {regs : σ → BitVec 10 → Byte} {x x₀ y : EnsmSystem σ}
  {r : Option EnsmMode} {e : EnsmEvent regs} {es : List (EnsmEvent regs)}

def request (c : Chip σ) (x : EnsmSystem σ) (r : Option EnsmMode) : EnsmSystem σ :=
  let (_, phy, chip) := setEnStateMachineMode c x.phy x.chip r
  ⟨phy, chip, x.mode.next x.phy.fdd r⟩

def step (c : Chip σ) (x : EnsmSystem σ) : EnsmEvent regs → Option (EnsmSystem σ)
  | .request r => some (x.request c r)
  | .bracket body =>
    let r := bracket c x.phy x.chip body
    some ⟨r.1, r.2, x.mode⟩
  | .abandoned body =>
    let r := abandoned c x.phy x.chip body
    some ⟨r.1, r.2, x.mode⟩
  | .elsewhere f txmonTddEn agcMode =>
    some ⟨{ x.phy with txmonTddEn := txmonTddEn, agcMode := agcMode }, f.run x.chip, x.mode⟩

/-- The pins have the control if and only if the mode gives it to them. -/
def PinsMatch (regs : σ → BitVec 10 → Byte) (x : EnsmSystem σ) : Prop :=
  pinControl regs x.chip = decide (x.mode = .pinctrl)

/-- The private structure knows which mode it is. -/
structure Records (x : EnsmSystem σ) : Prop where
  state : x.phy.currEnsmState = x.mode.state
  fdd : x.mode = .fdd → x.phy.fddIndependentMode = false
  fddIndep : x.mode = .pinctrlFddIndep → x.phy.fddIndependentMode = true

/-- The control stays where it is. A function that finds the alert state must not find, too, that an
earlier one took the control from the pins; and if the state cannot be restored there must be no
control to lose. -/
def Restores (c : Chip σ) (regs : σ → BitVec 10 → Byte) (x : EnsmSystem σ) :
    EnsmEvent regs → Prop
  | .bracket _ =>
    (devState c x.chip = ensmStateAlert → x.phy.ensmPinCtlEn = true →
      pinControl regs x.chip = true) ∧
    (restoredBits (devState c x.chip) = none → pinControl regs x.chip = false)
  | .abandoned _ => devState c x.chip = ensmStateAlert ∨ pinControl regs x.chip = false
  | _ => True

theorem state_eq_alert (h : x.Records) :
    x.phy.currEnsmState = ensmStateAlert ↔ x.mode = .alert := by
  rw [h.state]
  cases x.mode <;> decide

theorem accepts_iff (h : x.Records) {m : EnsmMode} : x.mode.accepts x.phy.fdd (some m) = true ↔
    ¬ (x.phy.currEnsmState = ensmStateAlert ∧ m.allowed x.phy.fdd = false) := by
  rw [state_eq_alert h]
  simp [EnsmMode.accepts]
  tauto

theorem not_accepts_iff (h : x.Records) {m : EnsmMode} :
    x.mode.accepts x.phy.fdd (some m) = false ↔
      x.phy.currEnsmState = ensmStateAlert ∧ m.allowed x.phy.fdd = false := by
  rw [← Bool.not_eq_true, accepts_iff h, not_not]

/-- **Which requests are refused.** -/
theorem setEnStateMachineMode_fst (hc : KeepsEnsm c regs) (h : x.Records) :
    (setEnStateMachineMode c x.phy x.chip r).1 =
      if x.mode.accepts x.phy.fdd r then 0 else -einval := by
  cases r with
  | none => rfl
  | some m =>
    cases haccepts : x.mode.accepts x.phy.fdd (some m) with
    | true => exact (setEnStateMachineMode_accepted hc ((accepts_iff h).mp haccepts)).1
    | false =>
      obtain ⟨hcurr, hm⟩ := (not_accepts_iff h).mp haccepts
      exact (setEnStateMachineMode_refused hc hcurr hm).1

/-- A request keeps the records true, and the control where the mode says. -/
theorem Records.request (hc : KeepsEnsm c regs) (h : x.Records) (r : Option EnsmMode) :
    (x.request c r).Records ∧ (x.request c r).phy.fdd = x.phy.fdd ∧
      (x.PinsMatch regs → (x.request c r).PinsMatch regs) := by
  cases r with
  | none =>
    have hstate : (x.mode.next x.phy.fdd none).state = x.mode.state := by
      cases x.mode <;> rfl
    have hpin : decide (x.mode.next x.phy.fdd none = .pinctrl) = decide (x.mode = .pinctrl) := by
      cases x.mode <;> rfl
    have hindep : x.mode.next x.phy.fdd none ≠ .pinctrlFddIndep := by
      cases x.mode <;> intro h <;> cases h
    exact ⟨⟨h.state.trans hstate.symm, fun _ => rfl, fun hmode => absurd hmode hindep⟩, rfl,
      fun hpins => hpins.trans hpin.symm⟩
  | some m =>
    cases haccepts : x.mode.accepts x.phy.fdd (some m) with
    | true =>
      obtain ⟨-, hphy, hpin⟩ := setEnStateMachineMode_accepted (s := x.chip) hc
        ((accepts_iff h).mp haccepts)
      have hmode : (x.request c (some m)).mode = m := if_pos haccepts
      have hphy' : (x.request c (some m)).phy =
          { x.phy.withIndep m with currEnsmState := m.state } := hphy
      refine ⟨⟨?_, ?_, ?_⟩, by rw [hphy']; rfl, fun _ => ?_⟩
      · rw [hphy', hmode]
      · rw [hphy', hmode]
        rintro rfl
        rfl
      · rw [hphy', hmode]
        rintro rfl
        rfl
      · rw [PinsMatch, hmode]
        exact hpin
    | false =>
      obtain ⟨hcurr, hm⟩ := (not_accepts_iff h).mp haccepts
      obtain ⟨-, hphy, hconfig⟩ := setEnStateMachineMode_refused (s := x.chip) hc hcurr hm
      have halert : x.mode = .alert := (state_eq_alert h).mp hcurr
      have hmode : (x.request c (some m)).mode = .alert := by
        rw [← halert]
        exact if_neg (by rw [haccepts]; exact Bool.false_ne_true)
      have hphy' : (x.request c (some m)).phy = x.phy.withIndep m := hphy
      refine ⟨⟨?_, ?_, ?_⟩, by rw [hphy']; rfl, fun hpins => ?_⟩
      · rw [hphy', hmode]
        exact hcurr
      · rw [hmode]
        exact fun h => by cases h
      · rw [hmode]
        exact fun h => by cases h
      · have hpin : pinControl regs (x.request c (some m)).chip = pinControl regs x.chip :=
          congrArg (·.getLsbD 4) hconfig
        rw [PinsMatch, hmode, hpin, hpins, halert]

/-- The control is kept exactly where the condition says so. -/
theorem bracket_pinControl_eq_iff (hc : KeepsEnsm c regs) (body : Elsewhere regs) :
    pinControl regs (bracket c x.phy x.chip body).2 = pinControl regs x.chip ↔
      Restores c regs x (.bracket body) := by
  rw [bracket_pinControl hc, Restores]
  by_cases halert : devState c x.chip = ensmStateAlert
  · have hbits : restoredBits (devState c x.chip) = some 0x01#8 := by
      rw [halert]
      rfl
    rw [hbits]
    cases pinControl regs x.chip <;> simp [halert]
  · cases restoredBits (devState c x.chip) <;> simp [halert]

theorem abandoned_pinControl_eq_iff (hc : KeepsEnsm c regs) (body : Elsewhere regs) :
    pinControl regs (abandoned c x.phy x.chip body).2 = pinControl regs x.chip ↔
      Restores c regs x (.abandoned body) := by
  rw [abandoned_pinControl hc, Restores]
  by_cases h : devState c x.chip = ensmStateAlert <;> simp [h]

theorem Records.step (hc : KeepsEnsm c regs) (h : x.Records) (e : EnsmEvent regs) :
    ∃ y, step c x e = some y ∧ y.Records ∧ y.phy.fdd = x.phy.fdd ∧
      (x.PinsMatch regs → Restores c regs x e → y.PinsMatch regs) := by
  cases e with
  | request r =>
    obtain ⟨hrecords, hfdd, hpins⟩ := h.request hc r
    exact ⟨_, rfl, hrecords, hfdd, fun hp _ => hpins hp⟩
  | bracket body =>
    have hphy := bracket_phy x.phy x.chip hc body
    refine ⟨⟨(bracket c x.phy x.chip body).1, (bracket c x.phy x.chip body).2, x.mode⟩, rfl, ?_, ?_,
      fun hpins he => ((bracket_pinControl_eq_iff hc body).mpr he).trans hpins⟩
    · rw [hphy]
      exact ⟨h.state, h.fdd, h.fddIndep⟩
    · rw [hphy]
  | abandoned body =>
    have hphy := (abandoned_phy (c := c) body).trans
      (bracket_phy x.phy x.chip hc body)
    refine ⟨⟨(abandoned c x.phy x.chip body).1, (abandoned c x.phy x.chip body).2, x.mode⟩, rfl,
      ?_, ?_, fun hpins he => ((abandoned_pinControl_eq_iff hc body).mpr he).trans hpins⟩
    · rw [hphy]
      exact ⟨h.state, h.fdd, h.fddIndep⟩
    · rw [hphy]
  | elsewhere f txmonTddEn agcMode =>
    have hpin : pinControl regs (f.run x.chip) = pinControl regs x.chip :=
      congrArg (·.getLsbD 4) (f.config1_run x.chip)
    exact ⟨_, rfl, ⟨h.state, h.fdd, h.fddIndep⟩, rfl, fun hpins _ => hpin.trans hpins⟩

/-- A function that does not restore the control leaves it where the mode does not want it. -/
theorem not_pinsMatch (hc : KeepsEnsm c regs) (hpins : x.PinsMatch regs)
    (he : ¬ Restores c regs x e) (hs : step c x e = some y) : ¬ y.PinsMatch regs := by
  cases e with
  | request r => exact absurd trivial he
  | bracket body =>
    cases hs
    intro hafter
    exact he ((bracket_pinControl_eq_iff hc body).mp (hafter.trans hpins.symm))
  | abandoned body =>
    cases hs
    intro hafter
    exact he ((abandoned_pinControl_eq_iff hc body).mp (hafter.trans hpins.symm))
  | elsewhere f txmonTddEn agcMode => exact absurd trivial he

/-- **When the control is where the mode that was last accepted wants it**: at all times, if and
only if every function in between restores it. -/
theorem run_pinsMatch_iff (hc : KeepsEnsm c regs) (h₀ : x₀.Records) (hpins : x₀.PinsMatch regs) :
    Machine.Meets (step c) (Restores c regs) x₀ es ↔
      ∀ es', es' <+: es → ∃ x, run (step c) x₀ es' = some x ∧ x.PinsMatch regs :=
  meets_iff_forall_prefix (I := fun x => x.Records ∧ x.PinsMatch regs)
    (fun _ e h he => by
      obtain ⟨y, hy, hrecords, -, hmatch⟩ := h.1.step hc e
      exact ⟨y, hy, hrecords, hmatch h.2 he⟩)
    (fun _ h => h.2)
    (fun _ _ _ h he hs => not_pinsMatch hc h.2 he hs) ⟨h₀, hpins⟩

instance : Decidable (Restores c regs x e) := by
  cases e <;> unfold Restores <;> infer_instance

/-- In the alert state. -/
def alertStart : EnsmSystem (BitVec 10 → Byte) where
  phy := tddPhy
  chip a := if a = 0x017#10 then ensmStateAlert else 0#8
  mode := .alert

/-- The device changes its state. -/
def moves (b : Byte) : Elsewhere (id : (BitVec 10 → Byte) → BitVec 10 → Byte) where
  run r := Function.update r 0x017#10 b
  config1_run r := Function.update_of_ne (show 0x014#10 ≠ 0x017#10 by decide) b r

theorem records_alertStart : alertStart.Records where
  state := rfl
  fdd h := by cases h
  fddIndep h := by cases h

/-- The pins get the control, a filter is loaded while they have it, and it is taken from them. -/
def pinRun : List (EnsmEvent (id : (BitVec 10 → Byte) → BitVec 10 → Byte)) :=
  [.request (some .pinctrl), .elsewhere (moves ensmStateRx) false (0#8, 0#8), .bracket nothing,
    .elsewhere (moves ensmStateAlert) false (0#8, 0#8), .request (some .alert)]

theorem run_pinsMatch_iff_pinRun : ∃ x,
    run (step registerFile) alertStart pinRun = some x ∧ x.PinsMatch id :=
  (run_pinsMatch_iff (registerFile_keeps _) records_alertStart rfl).mp (by decide +kernel) pinRun
    (List.prefix_refl _)

/-- If a filter is loaded now, the pins have the control again. -/
example : ¬ Machine.Meets (step registerFile) (Restores registerFile id) alertStart
    (pinRun ++ [.bracket nothing]) := by
  decide +kernel

/-- The device is in the state of the mode, as far as `REG_STATE` tells them apart. -/
def Settled (c : Chip σ) (x : EnsmSystem σ) : Prop :=
  BitVec.ofInt 8 (c.spiRead x.chip regState).1 &&& ensmStateMask.setWidth 8 =
    x.mode.state &&& ensmStateMask.setWidth 8

instance : Decidable (x.Settled c) := inferInstanceAs (Decidable (_ = _))

theorem getEnStateMachineMode_fst (hc : KeepsEnsm c regs) (h : x.Records)
    (hpins : x.PinsMatch regs) (hsettled : x.Settled c) :
    (getEnStateMachineMode c x.phy x.chip).1 = .ok x.mode.reported := by
  have hread : BitVec.ofInt 32 (c.spiRead (c.spiRead x.chip regState).2 regEnsmConfig1).1 =
      (config1 regs x.chip).setWidth 32 := by
    rw [spiRead_config1 hc, config1_spiRead hc]
  have hbit : ∀ v : Byte, v.setWidth 32 &&& enableEnsmPinCtrl = enableEnsmPinCtrl ↔
      v.getLsbD 4 = true := by
    decide +kernel
  have hpin : (config1 regs x.chip).setWidth 32 &&& enableEnsmPinCtrl = enableEnsmPinCtrl ↔
      x.mode = .pinctrl := by
    rw [hbit, show (config1 regs x.chip).getLsbD 4 = decide (x.mode = .pinctrl) from hpins,
      decide_eq_true_iff]
  unfold getEnStateMachineMode
  dsimp only
  rw [hread, hsettled]
  simp only [hpin]
  cases hmode : x.mode with
  | fdd =>
    rw [h.fdd hmode]
    rfl
  | pinctrlFddIndep =>
    rw [h.fddIndep hmode]
    rfl
  | _ => rfl

/-- **The mode that is read is the one that was last accepted**, and it is known which requests are
accepted. Only the sleep is read as waiting. -/
theorem getEnStateMachineMode_run (hc : KeepsEnsm c regs) (h₀ : x₀.Records)
    (hpins : x₀.PinsMatch regs) (hes : Machine.Meets (step c) (Restores c regs) x₀ es)
    (hr : run (step c) x₀ es = some x) :
    (∀ r, (setEnStateMachineMode c x.phy x.chip r).1 =
      if x.mode.accepts x.phy.fdd r then 0 else -einval) ∧
    (x.Settled c → (getEnStateMachineMode c x.phy x.chip).1 = .ok x.mode.reported) := by
  obtain ⟨hrecords, hmatch⟩ : x.Records ∧ x.PinsMatch regs :=
    run_invariant_of_meets (I := fun x => x.Records ∧ x.PinsMatch regs)
      (fun s e s' h he hs => by
        obtain ⟨t, ht, hrecords, -, hmatch⟩ := h.1.step hc e
        cases ht.symm.trans hs
        exact ⟨hrecords, hmatch h.2 he⟩)
      ⟨h₀, hpins⟩ hes hr
  exact ⟨fun _ => setEnStateMachineMode_fst hc hrecords,
    getEnStateMachineMode_fst hc hrecords hmatch⟩

theorem getEnStateMachineMode_run_pinRun : ∃ x,
    run (step registerFile) alertStart pinRun = some x ∧
      (getEnStateMachineMode registerFile x.phy x.chip).1 = .ok .alert := by
  obtain ⟨x, hx, hsettled, hmode⟩ : ∃ x, run (step registerFile) alertStart pinRun = some x ∧
      x.Settled registerFile ∧ x.mode = .alert := by
    decide +kernel
  have h := (getEnStateMachineMode_run (registerFile_keeps _) records_alertStart rfl
    (by decide +kernel) hx).2 hsettled
  rw [hmode] at h
  exact ⟨x, hx, h⟩

/-! ### Modes that are not allowed -/

/-- The state that is recorded is one of the duplex mode. -/
def StateAllowed (x : EnsmSystem σ) : Prop :=
  (x.phy.currEnsmState = ensmStateTx ∨ x.phy.currEnsmState = ensmStateRx → x.phy.fdd = false) ∧
  (x.phy.currEnsmState = ensmStateFdd → x.phy.fdd = true)

instance : Decidable x.StateAllowed := inferInstanceAs (Decidable (_ ∧ _))

/-- A request for a mode that is not allowed comes in the alert state only. -/
def Checked (x : EnsmSystem σ) : EnsmEvent regs → Prop
  | .request (some m) => m.allowed x.phy.fdd = true ∨ x.phy.currEnsmState = ensmStateAlert
  | _ => True

instance : Decidable (Checked x e) := by
  unfold Checked
  split <;> infer_instance

theorem stateAllowed_iff (h : x.Records) : x.StateAllowed ↔ x.mode.allowed x.phy.fdd = true := by
  rw [StateAllowed, h.state]
  cases x.mode <;> cases x.phy.fdd <;> decide

theorem allowed_next {fdd : Bool} {m : EnsmMode} (hm : m.allowed fdd = true)
    (hr : ∀ m', r = some m' → m'.allowed fdd = true ∨ m = .alert) :
    (m.next fdd r).allowed fdd = true := by
  cases r with
  | none => cases m <;> exact hm
  | some m' =>
    show (if m.accepts fdd (some m') then m' else m).allowed fdd = true
    split
    · next haccepts =>
      rcases hr m' rfl with h | rfl
      · exact h
      · exact haccepts
    · exact hm

/-- **A mode that is not allowed is recorded** if and only if one is asked for outside the alert
state: there it is taken for a mode that is reached through the alert state. -/
theorem run_stateAllowed_iff (hc : KeepsEnsm c regs) (h₀ : x₀.Records) (hstate : x₀.StateAllowed) :
    Machine.Meets (step c) Checked x₀ es ↔
      ∀ es', es' <+: es → ∃ x, run (step c) x₀ es' = some x ∧ x.StateAllowed := by
  refine meets_iff_forall_prefix (I := fun x => x.Records ∧ x.StateAllowed) ?_ (fun _ h => h.2) ?_
    ⟨h₀, hstate⟩
  · intro x e h he
    obtain ⟨y, hy, hrecords, hfdd, -⟩ := h.1.step hc e
    refine ⟨y, hy, hrecords, (stateAllowed_iff hrecords).mpr ?_⟩
    have hallowed := (stateAllowed_iff h.1).mp h.2
    rw [hfdd]
    cases e with
    | request r =>
      cases hy
      apply allowed_next hallowed
      rintro m' rfl
      exact he.imp_right (state_eq_alert h.1).mp
    | bracket body | abandoned body =>
      cases hy
      exact hallowed
    | elsewhere f txmonTddEn agcMode =>
      cases hy
      exact hallowed
  · intro x e y h he hy hallowed
    obtain ⟨z, hz, hrecords, hfdd, -⟩ := h.1.step hc e
    cases hy.symm.trans hz
    have hmode := (stateAllowed_iff hrecords).mp hallowed
    rw [hfdd] at hmode
    cases e with
    | request r =>
      cases r with
      | none => exact he trivial
      | some m =>
        obtain ⟨hm, hcurr⟩ := not_or.mp he
        have haccepts : x.mode.accepts x.phy.fdd (some m) = true :=
          (accepts_iff h.1).mpr fun hrefused => hcurr hrefused.1
        cases hy
        have hnext : (x.request c (some m)).mode = m := if_pos haccepts
        rw [hnext] at hmode
        exact hm hmode
    | bracket body | abandoned body => exact he trivial
    | elsewhere f txmonTddEn agcMode => exact he trivial

/-- Both directions at once, without frequency division. -/
example : ∃ x, run (step registerFile) alertStart
    ([.request (some .wait), .request (some .fdd)] : List (EnsmEvent id)) = some x ∧
      x.phy.currEnsmState = ensmStateFdd ∧ x.phy.fdd = false := by
  decide +kernel

theorem run_stateAllowed_iff_pinRun : ∃ x,
    run (step registerFile) alertStart pinRun = some x ∧ x.StateAllowed :=
  (run_stateAllowed_iff (registerFile_keeps _) records_alertStart (by decide)).mp
    (by decide +kernel) pinRun (List.prefix_refl _)

end EnsmSystem

end ModemFhss.Ad9361
