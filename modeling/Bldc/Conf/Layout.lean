import Bldc.Flash.Memory

/-!
# Layout of the configurations

The two configuration structs as the compiler lays them out: every field at the
next offset that its alignment allows, enumerations one byte wide, the size of a
struct rounded up to its alignment. From the sizes follow the EEPROM variables
that hold a configuration and the table of virtual addresses.
-/

namespace Bldc.Conf

open Flash

structure Layout where
  size : Nat
  align : Nat
  deriving DecidableEq, Repr

namespace Layout

def enumeration : Layout := ⟨1, 1⟩
def bool : Layout := ⟨1, 1⟩
def int8 : Layout := ⟨1, 1⟩
def uint8 : Layout := ⟨1, 1⟩
def int32 : Layout := ⟨4, 4⟩
def uint32 : Layout := ⟨4, 4⟩
def float : Layout := ⟨4, 4⟩

def array (count : Nat) (element : Layout) : Layout := ⟨count * element.size, element.align⟩

def roundUp (offset align : Nat) : Nat := (offset + align - 1) / align * align

def struct (fields : List (String × Layout)) : Layout :=
  let last := fields.foldl
    (fun last field => (⟨roundUp last.size field.2.align + field.2.size,
      max last.align field.2.align⟩ : Layout)) ⟨0, 1⟩
  ⟨roundUp last.size last.align, last.align⟩

end Layout

open Layout

/-- `mc_configuration`. -/
def mcConfiguration : Layout := struct [
  ("pwm_mode", enumeration), ("comm_mode", enumeration), ("motor_type", enumeration),
  ("sensor_mode", enumeration),
  ("l_current_max", float), ("l_current_min", float), ("l_in_current_max", float),
  ("l_in_current_min", float), ("l_abs_current_max", float), ("l_min_erpm", float),
  ("l_max_erpm", float), ("l_max_erpm_fbrake", float), ("l_max_erpm_fbrake_cc", float),
  ("l_min_vin", float), ("l_max_vin", float), ("l_battery_cut_start", float),
  ("l_battery_cut_end", float), ("l_slow_abs_current", bool), ("l_rpm_lim_neg_torque", bool),
  ("l_temp_fet_start", float), ("l_temp_fet_end", float), ("l_temp_motor_start", float),
  ("l_temp_motor_end", float), ("l_min_duty", float), ("l_max_duty", float),
  ("lo_current_max", float), ("lo_current_min", float), ("lo_in_current_max", float),
  ("lo_in_current_min", float),
  ("sl_min_erpm", float), ("sl_min_erpm_cycle_int_limit", float),
  ("sl_max_fullbreak_current_dir_change", float), ("sl_cycle_int_limit", float),
  ("sl_phase_advance_at_br", float), ("sl_cycle_int_rpm_br", float),
  ("sl_bemf_coupling_k", float),
  ("hall_table", array 8 int8), ("hall_sl_erpm", float),
  ("foc_current_kp", float), ("foc_current_ki", float), ("foc_f_sw", float),
  ("foc_dt_us", float), ("foc_encoder_offset", float), ("foc_encoder_inverted", bool),
  ("foc_encoder_ratio", float), ("foc_motor_l", float), ("foc_motor_r", float),
  ("foc_motor_flux_linkage", float), ("foc_observer_gain", float), ("foc_pll_kp", float),
  ("foc_pll_ki", float), ("foc_duty_dowmramp_kp", float), ("foc_duty_dowmramp_ki", float),
  ("foc_openloop_rpm", float), ("foc_sl_openloop_hyst", float), ("foc_sl_openloop_time", float),
  ("foc_sl_d_current_duty", float), ("foc_sl_d_current_factor", float),
  ("foc_sensor_mode", enumeration), ("foc_hall_table", array 8 uint8), ("foc_sl_erpm", float),
  ("s_pid_kp", float), ("s_pid_ki", float), ("s_pid_kd", float), ("s_pid_min_erpm", float),
  ("p_pid_kp", float), ("p_pid_ki", float), ("p_pid_kd", float), ("p_pid_ang_div", float),
  ("cc_startup_boost_duty", float), ("cc_min_current", float), ("cc_gain", float),
  ("cc_ramp_step_max", float),
  ("m_fault_stop_time_ms", int32), ("m_duty_ramp_step", float),
  ("m_duty_ramp_step_rpm_lim", float), ("m_current_backoff_gain", float),
  ("m_encoder_counts", uint32), ("m_sensor_port_mode", enumeration)]

/-- `ppm_config`. -/
def ppmConfig : Layout := struct [
  ("ctrl_type", enumeration), ("pid_max_erpm", float), ("hyst", float), ("pulse_start", float),
  ("pulse_end", float), ("median_filter", bool), ("safe_start", bool), ("rpm_lim_start", float),
  ("rpm_lim_end", float), ("multi_esc", bool), ("tc", bool), ("tc_max_diff", float)]

/-- `adc_config`. -/
def adcConfig : Layout := struct [
  ("ctrl_type", enumeration), ("hyst", float), ("voltage_start", float), ("voltage_end", float),
  ("use_filter", bool), ("safe_start", bool), ("cc_button_inverted", bool),
  ("rev_button_inverted", bool), ("voltage_inverted", bool), ("rpm_lim_start", float),
  ("rpm_lim_end", float), ("multi_esc", bool), ("tc", bool), ("tc_max_diff", float),
  ("update_rate_hz", uint32)]

/-- `chuk_config`. -/
def chukConfig : Layout := struct [
  ("ctrl_type", enumeration), ("hyst", float), ("rpm_lim_start", float), ("rpm_lim_end", float),
  ("ramp_time_pos", float), ("ramp_time_neg", float), ("stick_erpm_per_s_in_cc", float),
  ("multi_esc", bool), ("tc", bool), ("tc_max_diff", float)]

/-- `nrf_config`. -/
def nrfConfig : Layout := struct [
  ("speed", enumeration), ("power", enumeration), ("crc_type", enumeration),
  ("retry_delay", enumeration), ("retries", uint8), ("channel", uint8),
  ("address", array 3 uint8), ("send_crc_ack", bool)]

/-- `app_configuration`. -/
def appConfiguration : Layout := struct [
  ("controller_id", uint8), ("timeout_msec", uint32), ("timeout_brake_current", float),
  ("send_can_status", bool), ("send_can_status_rate_hz", uint32), ("app_to_use", enumeration),
  ("app_ppm_conf", ppmConfig), ("app_adc_conf", adcConfig), ("app_uart_baudrate", uint32),
  ("app_chuk_conf", chukConfig), ("app_nrf_conf", nrfConfig)]

/-! ## The EEPROM variables of a configuration -/

/-- The two configurations that are stored. -/
inductive Kind where
  | mc
  | app
  deriving DecidableEq, Repr

/-- `sizeof`. -/
def Kind.size : Kind → Nat
  | .mc => mcConfiguration.size
  | .app => appConfiguration.size

/-- `EEPROM_BASE_MCCONF` and `EEPROM_BASE_APPCONF`. -/
def Kind.eepromBase : Kind → Nat
  | .mc => 1000
  | .app => 2000

/-- Number of halfwords of a configuration. -/
def Kind.count (kind : Kind) : Nat := kind.size / 2

/-- The virtual address of the `i`-th halfword. -/
def Kind.virtAddress (kind : Kind) (i : Nat) : Half := BitVec.ofNat 16 (kind.eepromBase + i)

/-- `NB_OF_VAR`. -/
def nbOfVar : Nat := 160

/-- What `conf_general_init` assigns. Both loops run to the size of the app
configuration. -/
def assigned : List Half :=
  (List.range (appConfiguration.size / 2)).map Kind.mc.virtAddress ++
    (List.range (appConfiguration.size / 2)).map Kind.app.virtAddress

/-- `VirtAddVarTab` after `conf_general_init`: cleared, then assigned. -/
def virtAddVarTab : List Half := assigned ++ List.replicate (nbOfVar - assigned.length) 0

theorem size_mc : Kind.mc.size = 308 := by decide +kernel

theorem size_app : Kind.app.size = 160 := by decide +kernel

theorem count_mc : Kind.mc.count = 154 := by rw [Kind.count, size_mc]

theorem count_app : Kind.app.count = 80 := by rw [Kind.count, size_app]

/-- The two loops fill the table exactly. -/
theorem assigned_length : assigned.length = nbOfVar := by
  rw [assigned, List.length_append, List.length_map, List.length_map, List.length_range]
  exact congrArg (fun count => count + count) count_app

theorem virtAddVarTab_eq : virtAddVarTab = assigned := by
  rw [virtAddVarTab, assigned_length, Nat.sub_self, List.replicate_zero, List.append_nil]

theorem size_appConfiguration : appConfiguration.size / 2 = 80 := count_app

theorem Kind.virtAddress_ne_ones (kind : Kind) {i : Nat} (hi : i < 154) :
    kind.virtAddress i ≠ 0xFFFF := by
  intro h
  have hnat := congrArg BitVec.toNat h
  have hkind : kind.eepromBase ≤ 2000 := by cases kind <;> decide
  simp only [Kind.virtAddress, BitVec.toNat_ofNat] at hnat
  have hones : (0xFFFF : Half).toNat = 65535 := by decide
  omega

theorem virtAddVarTab_ne_ones {a : Half} (ha : a ∈ virtAddVarTab) : a ≠ 0xFFFF := by
  rw [virtAddVarTab_eq, assigned, size_appConfiguration, List.mem_append, List.mem_map,
    List.mem_map] at ha
  rcases ha with ⟨i, hi, rfl⟩ | ⟨i, hi, rfl⟩
  · exact Kind.mc.virtAddress_ne_ones (by rw [List.mem_range] at hi; omega)
  · exact Kind.app.virtAddress_ne_ones (by rw [List.mem_range] at hi; omega)

theorem mem_virtAddVarTab_iff (kind : Kind) {i : Nat} (hi : i < kind.count) :
    kind.virtAddress i ∈ virtAddVarTab ↔ i < 80 := by
  have hsize : i < 154 := by
    cases kind
    · rwa [count_mc] at hi
    · rw [count_app] at hi
      omega
  have haddress : ∀ {other : Kind} {j : Nat}, j < 80 →
      other.virtAddress j = kind.virtAddress i → other.eepromBase + j = kind.eepromBase + i := by
    intro other j hj h
    have hnat := congrArg BitVec.toNat h
    have hkind : kind.eepromBase ≤ 2000 := by cases kind <;> decide
    have hother : other.eepromBase ≤ 2000 := by cases other <;> decide
    simp only [Kind.virtAddress, BitVec.toNat_ofNat] at hnat
    omega
  rw [virtAddVarTab_eq, assigned, size_appConfiguration, List.mem_append, List.mem_map,
    List.mem_map]
  constructor
  · rintro (⟨j, hj, h⟩ | ⟨j, hj, h⟩)
    · rw [List.mem_range] at hj
      have hsum := haddress hj h
      cases kind <;> simp only [Kind.eepromBase] at hsum <;> omega
    · rw [List.mem_range] at hj
      have hsum := haddress hj h
      cases kind <;> simp only [Kind.eepromBase] at hsum <;> omega
  · intro h
    cases kind
    · exact Or.inl ⟨i, List.mem_range.2 h, rfl⟩
    · exact Or.inr ⟨i, List.mem_range.2 h, rfl⟩

theorem virtAddVarTab_length : virtAddVarTab.length = 160 := by
  rw [virtAddVarTab_eq, assigned_length]
  rfl

theorem virtAddVarTab_head : ∃ rest, virtAddVarTab = 1000 :: rest := by
  rw [virtAddVarTab_eq, assigned, size_appConfiguration]
  exact ⟨_, rfl⟩

end Bldc.Conf
