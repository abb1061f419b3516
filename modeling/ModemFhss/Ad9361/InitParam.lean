import Mathlib.Algebra.Order.Ring.Int
import Mathlib.Data.Fin.SuccPred
import Mathlib.Data.List.Nodup

/-!
# The parameters of the transceiver (`ad9361_api.h`)

`AD9361_InitParam`, less `dev_sel`, which no file of the configuration sets. Most of its fields are
numbers that `config.yaml` gives by their names; the clocks of the paths and the bandwidths come
with the filter.
-/

namespace ModemFhss.Ad9361

/-! ## Integers of C -/

inductive CType where
  | uint8
  | int8
  | uint16
  | uint32
  | int32
  | uint64
  deriving DecidableEq, Repr

namespace CType

def min : CType → Int
  | .int8 => -2 ^ 7
  | .int32 => -2 ^ 31
  | _ => 0

def max : CType → Int
  | .uint8 => 2 ^ 8 - 1
  | .int8 => 2 ^ 7 - 1
  | .uint16 => 2 ^ 16 - 1
  | .uint32 => 2 ^ 32 - 1
  | .int32 => 2 ^ 31 - 1
  | .uint64 => 2 ^ 64 - 1

/-- The numbers of a type. -/
def Holds (t : CType) (n : Int) : Prop := t.min ≤ n ∧ n ≤ t.max

instance (t : CType) (n : Int) : Decidable (t.Holds n) := inferInstanceAs (Decidable (_ ∧ _))

/-- What a conversion to a type makes of a number. -/
def wrap (t : CType) (n : Int) : Int := t.min + (n - t.min) % (t.max - t.min + 1)

theorem holds_wrap (t : CType) (n : Int) : t.Holds (t.wrap n) := by
  have hsize : 0 < t.max - t.min + 1 := by cases t <;> decide
  have hnonneg := Int.emod_nonneg (n - t.min) hsize.ne'
  have hlt := Int.emod_lt_of_pos (n - t.min) hsize
  unfold wrap
  constructor <;> omega

/-- A number of a type. -/
abbrev Value (t : CType) := {n : Int // t.Holds n}

def cast (t : CType) (n : Int) : t.Value := ⟨t.wrap n, holds_wrap t n⟩

end CType

/-! ## The fields -/

/-- How `fill_ad9361_st` gets a number from a text: by `strtol` or `strtoll`, in a base, with a
cast. -/
structure Conversion where
  bits : Nat
  cast : CType
  base : Nat
  deriving DecidableEq, Repr

def strtol (cast : CType) (base : Nat) : Conversion := { bits := 32, cast, base }

def strtoll (cast : CType) (base : Nat) : Conversion := { bits := 64, cast, base }

/-- A field with a key: the key's text in `parse_keys`, the type in `AD9361_InitParam`, and the
assignment in `fill_ad9361_st`. -/
structure FieldInfo where
  name : String
  type : CType
  conversion : Conversion
  deriving DecidableEq, Repr

/-- In the order of `enum keys`, which is that of the branches of `parse_keys` and of
`fill_ad9361_st`. -/
def fields : List FieldInfo := [
  ⟨"id_no", .uint8, strtol .uint8 10⟩,
  ⟨"reference_clk_rate", .uint32, strtol .uint32 10⟩,
  ⟨"two_rx_two_tx_mode_enable", .uint8, strtol .uint8 10⟩,
  ⟨"one_rx_one_tx_mode_use_rx_num", .uint8, strtol .uint8 10⟩,
  ⟨"one_rx_one_tx_mode_use_tx_num", .uint8, strtol .uint8 10⟩,
  ⟨"frequency_division_duplex_mode_enable", .uint8, strtol .uint8 10⟩,
  ⟨"frequency_division_duplex_independent_mode_enable", .uint8, strtol .uint8 10⟩,
  ⟨"tdd_use_dual_synth_mode_enable", .uint8, strtol .uint8 10⟩,
  ⟨"tdd_skip_vco_cal_enable", .uint8, strtol .uint8 10⟩,
  ⟨"tx_fastlock_delay_ns", .uint32, strtol .uint32 10⟩,
  ⟨"rx_fastlock_delay_ns", .uint32, strtol .uint32 10⟩,
  ⟨"rx_fastlock_pincontrol_enable", .uint8, strtol .uint8 10⟩,
  ⟨"tx_fastlock_pincontrol_enable", .uint8, strtol .uint8 10⟩,
  ⟨"external_rx_lo_enable", .uint8, strtol .uint8 10⟩,
  ⟨"external_tx_lo_enable", .uint8, strtol .uint8 10⟩,
  ⟨"dc_offset_tracking_update_event_mask", .uint8, strtol .uint8 10⟩,
  ⟨"dc_offset_attenuation_high_range", .uint8, strtol .uint8 10⟩,
  ⟨"dc_offset_attenuation_low_range", .uint8, strtol .uint8 10⟩,
  ⟨"dc_offset_count_high_range", .uint8, strtol .uint8 16⟩,
  ⟨"dc_offset_count_low_range", .uint8, strtol .uint8 16⟩,
  ⟨"split_gain_table_mode_enable", .uint8, strtol .uint8 10⟩,
  ⟨"trx_synthesizer_target_fref_overwrite_hz", .uint32, strtol .uint32 10⟩,
  ⟨"qec_tracking_slow_mode_enable", .uint8, strtol .uint8 10⟩,
  ⟨"ensm_enable_pin_pulse_mode_enable", .uint8, strtol .uint8 10⟩,
  ⟨"ensm_enable_txnrx_control_enable", .uint8, strtol .uint8 10⟩,
  ⟨"rx_synthesizer_frequency_hz", .uint64, strtoll .uint64 10⟩,
  ⟨"tx_synthesizer_frequency_hz", .uint64, strtoll .uint64 10⟩,
  ⟨"rx_rf_port_input_select", .uint32, strtol .uint32 10⟩,
  ⟨"tx_rf_port_input_select", .uint32, strtol .uint32 10⟩,
  ⟨"tx_attenuation_mdB", .int32, strtol .uint32 10⟩,
  ⟨"update_tx_gain_in_alert_enable", .uint8, strtol .uint8 10⟩,
  ⟨"xo_disable_use_ext_refclk_enable", .uint8, strtol .uint8 10⟩,
  ⟨"dcxo_coarse_and_fine_tune[0]", .uint32, strtol .uint32 10⟩,
  ⟨"dcxo_coarse_and_fine_tune[1]", .uint32, strtol .uint32 10⟩,
  ⟨"clk_output_mode_select", .uint32, strtol .uint32 10⟩,
  ⟨"gc_rx1_mode", .uint8, strtol .uint8 10⟩,
  ⟨"gc_rx2_mode", .uint8, strtol .uint8 10⟩,
  ⟨"gc_adc_large_overload_thresh", .uint8, strtol .uint8 10⟩,
  ⟨"gc_adc_ovr_sample_size", .uint8, strtol .uint8 10⟩,
  ⟨"gc_adc_small_overload_thresh", .uint8, strtol .uint8 10⟩,
  ⟨"gc_dec_pow_measurement_duration", .uint16, strtol .uint16 10⟩,
  ⟨"gc_dig_gain_enable", .uint8, strtol .uint8 10⟩,
  ⟨"gc_lmt_overload_high_thresh", .uint16, strtol .uint16 10⟩,
  ⟨"gc_lmt_overload_low_thresh", .uint16, strtol .uint16 10⟩,
  ⟨"gc_low_power_thresh", .uint8, strtol .uint8 10⟩,
  ⟨"gc_max_dig_gain", .uint8, strtol .uint8 10⟩,
  ⟨"mgc_dec_gain_step", .uint8, strtol .uint8 10⟩,
  ⟨"mgc_inc_gain_step", .uint8, strtol .uint8 10⟩,
  ⟨"mgc_rx1_ctrl_inp_enable", .uint8, strtol .uint8 10⟩,
  ⟨"mgc_rx2_ctrl_inp_enable", .uint8, strtol .uint8 10⟩,
  ⟨"mgc_split_table_ctrl_inp_gain_mode", .uint8, strtol .uint8 10⟩,
  ⟨"agc_adc_large_overload_exceed_counter", .uint8, strtol .uint8 10⟩,
  ⟨"agc_adc_large_overload_inc_steps", .uint8, strtol .uint8 10⟩,
  ⟨"agc_adc_lmt_small_overload_prevent_gain_inc_enable", .uint8, strtol .uint8 10⟩,
  ⟨"agc_adc_small_overload_exceed_counter", .uint8, strtol .uint8 10⟩,
  ⟨"agc_dig_gain_step_size", .uint8, strtol .uint8 10⟩,
  ⟨"agc_dig_saturation_exceed_counter", .uint8, strtol .uint8 10⟩,
  ⟨"agc_gain_update_interval_us", .uint32, strtol .uint32 10⟩,
  ⟨"agc_immed_gain_change_if_large_adc_overload_enable", .uint8, strtol .uint8 10⟩,
  ⟨"agc_immed_gain_change_if_large_lmt_overload_enable", .uint8, strtol .uint8 10⟩,
  ⟨"agc_inner_thresh_high", .uint8, strtol .uint8 10⟩,
  ⟨"agc_inner_thresh_high_dec_steps", .uint8, strtol .uint8 10⟩,
  ⟨"agc_inner_thresh_low", .uint8, strtol .uint8 10⟩,
  ⟨"agc_inner_thresh_low_inc_steps", .uint8, strtol .uint8 10⟩,
  ⟨"agc_lmt_overload_large_exceed_counter", .uint8, strtol .uint8 10⟩,
  ⟨"agc_lmt_overload_large_inc_steps", .uint8, strtol .uint8 10⟩,
  ⟨"agc_lmt_overload_small_exceed_counter", .uint8, strtol .uint8 10⟩,
  ⟨"agc_outer_thresh_high", .uint8, strtol .uint8 10⟩,
  ⟨"agc_outer_thresh_high_dec_steps", .uint8, strtol .uint8 10⟩,
  ⟨"agc_outer_thresh_low", .uint8, strtol .uint8 10⟩,
  ⟨"agc_outer_thresh_low_inc_steps", .uint8, strtol .uint8 10⟩,
  ⟨"agc_attack_delay_extra_margin_us", .uint32, strtol .uint32 10⟩,
  ⟨"agc_sync_for_gain_counter_enable", .uint8, strtol .uint8 10⟩,
  ⟨"fagc_dec_pow_measuremnt_duration", .uint32, strtol .uint32 10⟩,
  ⟨"fagc_state_wait_time_ns", .uint32, strtol .uint32 10⟩,
  ⟨"fagc_allow_agc_gain_increase", .uint8, strtol .uint8 10⟩,
  ⟨"fagc_lp_thresh_increment_time", .uint32, strtol .uint32 10⟩,
  ⟨"fagc_lp_thresh_increment_steps", .uint32, strtol .uint32 10⟩,
  ⟨"fagc_lock_level", .uint32, strtol .uint32 10⟩,
  ⟨"fagc_lock_level_lmt_gain_increase_en", .uint8, strtol .uint8 10⟩,
  ⟨"fagc_lock_level_gain_increase_upper_limit", .uint32, strtol .uint32 10⟩,
  ⟨"fagc_lpf_final_settling_steps", .uint32, strtol .uint32 10⟩,
  ⟨"fagc_lmt_final_settling_steps", .uint32, strtol .uint32 10⟩,
  ⟨"fagc_final_overrange_count", .uint32, strtol .uint32 10⟩,
  ⟨"fagc_gain_increase_after_gain_lock_en", .uint8, strtol .uint8 10⟩,
  ⟨"fagc_gain_index_type_after_exit_rx_mode", .uint32, strtol .uint32 10⟩,
  ⟨"fagc_use_last_lock_level_for_set_gain_en", .uint8, strtol .uint8 10⟩,
  ⟨"fagc_rst_gla_stronger_sig_thresh_exceeded_en", .uint8, strtol .uint8 10⟩,
  ⟨"fagc_optimized_gain_offset", .uint32, strtol .uint32 10⟩,
  ⟨"fagc_rst_gla_stronger_sig_thresh_above_ll", .uint32, strtol .uint32 10⟩,
  ⟨"fagc_rst_gla_engergy_lost_sig_thresh_exceeded_en", .uint8, strtol .uint8 10⟩,
  ⟨"fagc_rst_gla_engergy_lost_goto_optim_gain_en", .uint8, strtol .uint8 10⟩,
  ⟨"fagc_rst_gla_engergy_lost_sig_thresh_below_ll", .uint32, strtol .uint32 10⟩,
  ⟨"fagc_energy_lost_stronger_sig_gain_lock_exit_cnt", .uint32, strtol .uint32 10⟩,
  ⟨"fagc_rst_gla_large_adc_overload_en", .uint8, strtol .uint8 10⟩,
  ⟨"fagc_rst_gla_large_lmt_overload_en", .uint8, strtol .uint8 10⟩,
  ⟨"fagc_rst_gla_en_agc_pulled_high_en", .uint8, strtol .uint8 10⟩,
  ⟨"fagc_rst_gla_if_en_agc_pulled_high_mode", .uint32, strtol .uint32 10⟩,
  ⟨"fagc_power_measurement_duration_in_state5", .uint32, strtol .uint32 10⟩,
  ⟨"rssi_delay", .uint32, strtol .uint32 10⟩,
  ⟨"rssi_duration", .uint32, strtol .uint32 10⟩,
  ⟨"rssi_restart_mode", .uint8, strtol .uint8 10⟩,
  ⟨"rssi_unit_is_rx_samples_enable", .uint8, strtol .uint8 10⟩,
  ⟨"rssi_wait", .uint32, strtol .uint32 10⟩,
  ⟨"aux_adc_decimation", .uint32, strtol .uint32 10⟩,
  ⟨"aux_adc_rate", .uint32, strtol .uint32 10⟩,
  ⟨"aux_dac_manual_mode_enable", .uint8, strtol .uint8 10⟩,
  ⟨"aux_dac1_default_value_mV", .uint32, strtol .uint32 10⟩,
  ⟨"aux_dac1_active_in_rx_enable", .uint8, strtol .uint8 10⟩,
  ⟨"aux_dac1_active_in_tx_enable", .uint8, strtol .uint8 10⟩,
  ⟨"aux_dac1_active_in_alert_enable", .uint8, strtol .uint8 10⟩,
  ⟨"aux_dac1_rx_delay_us", .uint32, strtol .uint32 10⟩,
  ⟨"aux_dac1_tx_delay_us", .uint32, strtol .uint32 10⟩,
  ⟨"aux_dac2_default_value_mV", .uint32, strtol .uint32 10⟩,
  ⟨"aux_dac2_active_in_rx_enable", .uint8, strtol .uint8 10⟩,
  ⟨"aux_dac2_active_in_tx_enable", .uint8, strtol .uint8 10⟩,
  ⟨"aux_dac2_active_in_alert_enable", .uint8, strtol .uint8 10⟩,
  ⟨"aux_dac2_rx_delay_us", .uint32, strtol .uint32 10⟩,
  ⟨"aux_dac2_tx_delay_us", .uint32, strtol .uint32 10⟩,
  ⟨"temp_sense_decimation", .uint32, strtol .uint32 10⟩,
  ⟨"temp_sense_measurement_interval_ms", .uint16, strtol .uint16 10⟩,
  ⟨"temp_sense_offset_signed", .int8, strtol .int8 16⟩,
  ⟨"temp_sense_periodic_measurement_enable", .uint8, strtol .uint8 10⟩,
  ⟨"ctrl_outs_enable_mask", .uint8, strtol .uint8 16⟩,
  ⟨"ctrl_outs_index", .uint8, strtol .uint8 16⟩,
  ⟨"elna_settling_delay_ns", .uint32, strtol .uint32 10⟩,
  ⟨"elna_gain_mdB", .uint32, strtol .uint32 10⟩,
  ⟨"elna_bypass_loss_mdB", .uint32, strtol .uint32 10⟩,
  ⟨"elna_rx1_gpo0_control_enable", .uint8, strtol .uint8 10⟩,
  ⟨"elna_rx2_gpo1_control_enable", .uint8, strtol .uint8 10⟩,
  ⟨"elna_gaintable_all_index_enable", .uint8, strtol .uint8 10⟩,
  ⟨"digital_interface_tune_skip_mode", .uint8, strtol .uint8 10⟩,
  ⟨"digital_interface_tune_fir_disable", .uint8, strtol .uint8 10⟩,
  ⟨"pp_tx_swap_enable", .uint8, strtol .uint8 10⟩,
  ⟨"pp_rx_swap_enable", .uint8, strtol .uint8 10⟩,
  ⟨"tx_channel_swap_enable", .uint8, strtol .uint8 10⟩,
  ⟨"rx_channel_swap_enable", .uint8, strtol .uint8 10⟩,
  ⟨"rx_frame_pulse_mode_enable", .uint8, strtol .uint8 10⟩,
  ⟨"two_t_two_r_timing_enable", .uint8, strtol .uint8 10⟩,
  ⟨"invert_data_bus_enable", .uint8, strtol .uint8 10⟩,
  ⟨"invert_data_clk_enable", .uint8, strtol .uint8 10⟩,
  ⟨"fdd_alt_word_order_enable", .uint8, strtol .uint8 10⟩,
  ⟨"invert_rx_frame_enable", .uint8, strtol .uint8 10⟩,
  ⟨"fdd_rx_rate_2tx_enable", .uint8, strtol .uint8 10⟩,
  ⟨"swap_ports_enable", .uint8, strtol .uint8 10⟩,
  ⟨"single_data_rate_enable", .uint8, strtol .uint8 10⟩,
  ⟨"lvds_mode_enable", .uint8, strtol .uint8 10⟩,
  ⟨"half_duplex_mode_enable", .uint8, strtol .uint8 10⟩,
  ⟨"single_port_mode_enable", .uint8, strtol .uint8 10⟩,
  ⟨"full_port_enable", .uint8, strtol .uint8 10⟩,
  ⟨"full_duplex_swap_bits_enable", .uint8, strtol .uint8 10⟩,
  ⟨"delay_rx_data", .uint32, strtol .uint32 10⟩,
  ⟨"rx_data_clock_delay", .uint32, strtol .uint32 10⟩,
  ⟨"rx_data_delay", .uint32, strtol .uint32 10⟩,
  ⟨"tx_fb_clock_delay", .uint32, strtol .uint32 10⟩,
  ⟨"tx_data_delay", .uint32, strtol .uint32 10⟩,
  ⟨"lvds_bias_mV", .uint32, strtol .uint32 10⟩,
  ⟨"lvds_rx_onchip_termination_enable", .uint8, strtol .uint8 10⟩,
  ⟨"rx1rx2_phase_inversion_en", .uint8, strtol .uint8 10⟩,
  ⟨"lvds_invert1_control", .uint8, strtol .uint8 16⟩,
  ⟨"lvds_invert2_control", .uint8, strtol .uint8 16⟩,
  ⟨"gpo0_inactive_state_high_enable", .uint8, strtol .uint8 10⟩,
  ⟨"gpo1_inactive_state_high_enable", .uint8, strtol .uint8 10⟩,
  ⟨"gpo2_inactive_state_high_enable", .uint8, strtol .uint8 10⟩,
  ⟨"gpo3_inactive_state_high_enable", .uint8, strtol .uint8 10⟩,
  ⟨"gpo0_slave_rx_enable", .uint8, strtol .uint8 10⟩,
  ⟨"gpo0_slave_tx_enable", .uint8, strtol .uint8 10⟩,
  ⟨"gpo1_slave_rx_enable", .uint8, strtol .uint8 10⟩,
  ⟨"gpo1_slave_tx_enable", .uint8, strtol .uint8 10⟩,
  ⟨"gpo2_slave_rx_enable", .uint8, strtol .uint8 10⟩,
  ⟨"gpo2_slave_tx_enable", .uint8, strtol .uint8 10⟩,
  ⟨"gpo3_slave_rx_enable", .uint8, strtol .uint8 10⟩,
  ⟨"gpo3_slave_tx_enable", .uint8, strtol .uint8 10⟩,
  ⟨"gpo0_rx_delay_us", .uint8, strtol .uint8 10⟩,
  ⟨"gpo0_tx_delay_us", .uint8, strtol .uint8 10⟩,
  ⟨"gpo1_rx_delay_us", .uint8, strtol .uint8 10⟩,
  ⟨"gpo1_tx_delay_us", .uint8, strtol .uint8 10⟩,
  ⟨"gpo2_rx_delay_us", .uint8, strtol .uint8 10⟩,
  ⟨"gpo2_tx_delay_us", .uint8, strtol .uint8 10⟩,
  ⟨"gpo3_rx_delay_us", .uint8, strtol .uint8 10⟩,
  ⟨"gpo3_tx_delay_us", .uint8, strtol .uint8 10⟩,
  ⟨"low_high_gain_threshold_mdB", .uint32, strtol .uint32 10⟩,
  ⟨"low_gain_dB", .uint32, strtol .uint32 10⟩,
  ⟨"high_gain_dB", .uint32, strtol .uint32 10⟩,
  ⟨"tx_mon_track_en", .uint8, strtol .uint8 10⟩,
  ⟨"one_shot_mode_en", .uint8, strtol .uint8 10⟩,
  ⟨"tx_mon_delay", .uint32, strtol .uint32 10⟩,
  ⟨"tx_mon_duration", .uint32, strtol .uint32 10⟩,
  ⟨"tx1_mon_front_end_gain", .uint32, strtol .uint32 10⟩,
  ⟨"tx2_mon_front_end_gain", .uint32, strtol .uint32 10⟩,
  ⟨"tx1_mon_lo_cm", .uint32, strtol .uint32 10⟩,
  ⟨"tx2_mon_lo_cm", .uint32, strtol .uint32 10⟩,
  ⟨"gpio_resetb", .int32, strtol .int32 10⟩,
  ⟨"gpio_sync", .int32, strtol .int32 10⟩,
  ⟨"gpio_cal_sw1", .int32, strtol .int32 10⟩,
  ⟨"gpio_cal_sw2", .int32, strtol .int32 10⟩]

abbrev Field := Fin fields.length

def Field.info (f : Field) : FieldInfo := fields.get f

/-- `AD9361_InitParam` -/
structure InitParam where
  field : (f : Field) → f.info.type.Value
  rxPathClockFrequencies : Vector UInt32 6
  txPathClockFrequencies : Vector UInt32 6
  rfRxBandwidthHz : UInt32
  rfTxBandwidthHz : UInt32

instance : Inhabited InitParam where
  default :=
    { field := fun f => f.info.type.cast 0
      rxPathClockFrequencies := .replicate 6 0
      txPathClockFrequencies := .replicate 6 0
      rfRxBandwidthHz := 0
      rfTxBandwidthHz := 0 }

/-- No two fields have the same key. -/
theorem name_injective {f g : Field} (h : f.info.name = g.info.name) : f = g := by
  -- texts of different lengths need not be compared
  have hsized : (fields.map FieldInfo.name).Pairwise fun a b =>
      Nat.beq a.utf8ByteSize b.utf8ByteSize = true → a ≠ b := by decide +kernel
  have hnodup : (fields.map FieldInfo.name).Nodup := by
    apply hsized.imp
    rintro a b hne rfl
    exact hne (Nat.beq_refl _) rfl
  have hlength : (fields.map FieldInfo.name).length = fields.length := List.length_map _
  have hget : (fields.map FieldInfo.name).get (f.cast hlength.symm) =
      (fields.map FieldInfo.name).get (g.cast hlength.symm) := by
    rw [List.get_eq_getElem, List.get_eq_getElem, List.getElem_map, List.getElem_map]
    exact h
  exact (Fin.cast_inj hlength.symm).mp (List.nodup_iff_injective_get.mp hnodup hget)

end ModemFhss.Ad9361
