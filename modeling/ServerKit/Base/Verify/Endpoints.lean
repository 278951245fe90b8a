import ServerKit.Base.Endpoint
import ServerKit.Util.Verify.Formatting
import Mathlib.Data.List.TakeWhile

/-!
# The strings of Endpoints

Listeners are kept by the string of their Endpoint. The port is behind the last colon, so the string
tells Endpoints apart.
-/

namespace ServerKit

open Lib

theorem colon_notMem_decimal (n : ℕ) : (0x3a : UInt8) ∉ decimal n := by
  intro h
  obtain ⟨d, hd, heq⟩ := mem_decimal h
  have hnat := congrArg UInt8.toNat heq
  simp only [digit, UInt8.toNat_ofNat'] at hnat
  have hcolon : (0x3a : UInt8).toNat = 58 := rfl
  omega

/-- A list is split at the last occurrence of a separator. -/
theorem append_cons_inj_last {X : Type} {x x' z z' : List X} {a : X} (hz : a ∉ z) (hz' : a ∉ z')
    (h : x ++ a :: z = x' ++ a :: z') : x = x' ∧ z = z' := by
  rcases List.append_eq_append_iff.mp h with ⟨y, rfl, hy⟩ | ⟨y, rfl, hy⟩
  · cases y with
    | nil => simpa using hy
    | cons b y =>
      obtain ⟨-, rfl⟩ := List.cons_eq_cons.mp hy
      exact absurd (List.mem_append_right y List.mem_cons_self) hz
  · cases y with
    | nil =>
      have hy : z' = z := by simpa using hy
      simp [hy]
    | cons b y =>
      obtain ⟨-, rfl⟩ := List.cons_eq_cons.mp hy
      exact absurd (List.mem_append_right y List.mem_cons_self) hz'

/-- One round of the loop is enough for a `vsnprintf` that reports the length of the text. -/
theorem stringPrintf_one {text : List UInt8} (h : (text.length : ℤ) + 1 ≤ kMaxAppendSize) :
    stringPrintf 1 (vsnprintfC text) = some (.ok text) := by
  have hmax : (text.length : ℤ) < intMax := by
    unfold kMaxAppendSize at h
    unfold intMax
    omega
  have happended : appended [] text = text := by rw [appended, if_pos h, List.nil_append]
  have hreports := vsnprintfC_reportsLength hmax.le
  have hresult := hreports.result kSmallFixedSize (by decide)
  by_cases hfit : (text.length : ℤ) < kSmallFixedSize
  · rw [stringPrintf, stringAppendV_small hfit hresult (hreports.stored _ hfit), happended]
  · have hnext : nextLength text.length kSmallFixedSize = .ok (text.length + 1) := by
      rw [nextLength, if_neg (by omega)]
      apply checkInt_ok
      unfold IsInt intMin
      unfold intMax at hmax ⊢
      omega
    rw [stringPrintf, stringAppendV_eq, hresult, if_neg (by omega),
      appendLoop_fits hnext h (by omega)
      (hreports.result _ (by omega)) (hreports.stored _ (by omega)), happended]

namespace Endpoint

theorem init_eq {addr : List UInt8} {port : UInt16}
    (h : ((format addr port).length : ℤ) + 1 ≤ kMaxAppendSize) :
    init addr port = some (.ok ⟨addr, port, format addr port⟩) := by
  rw [init, stringPrintf_one h]
  rfl

theorem format_inj {addr addr' : List UInt8} {port port' : UInt16} (h0 : 0 ∉ addr)
    (h0' : 0 ∉ addr') :
    format addr port = format addr' port' ↔ addr = addr' ∧ port = port' := by
  have hcStr : ∀ l : List UInt8, 0 ∉ l → cStr l = l := by
    intro l hl
    rw [cStr, List.takeWhile_eq_self_iff]
    intro c hc
    simp only [ne_eq, decide_not, Bool.not_eq_eq_eq_not, Bool.not_true, decide_eq_false_iff_not]
    rintro rfl
    exact hl hc
  rw [format, format, hcStr addr h0, hcStr addr' h0']
  constructor
  · intro h
    obtain ⟨haddr, hport⟩ := append_cons_inj_last (colon_notMem_decimal _)
        (colon_notMem_decimal _) h
    exact ⟨haddr, UInt16.toNat_inj.mp (decimal_injective hport)⟩
  · rintro ⟨rfl, rfl⟩
    rfl

/-- The string of an Endpoint with an address and a port is not that of one without. -/
theorem format_ne_new (addr : List UInt8) (port : UInt16) : format addr port ≠ new.str := by
  rw [format, new]
  exact List.append_ne_nil_of_right_ne_nil _ (List.cons_ne_nil _ _)

end Endpoint

/-- **Endpoints and their strings**: for addresses without a NUL whose strings are shorter than 32
MB, two Endpoints that have been given their address and port are equal, and have the same string,
exactly when these are the same. An Endpoint that has been given none is equal to none of them,
although the address may be empty and the port 0. -/
theorem endpoint_eq_iff {addr addr' : List UInt8} {port port' : UInt16} (h0 : 0 ∉ addr)
    (h0' : 0 ∉ addr') (hlen : ((Endpoint.format addr port).length : ℤ) + 1 ≤ kMaxAppendSize)
    (hlen' : ((Endpoint.format addr' port').length : ℤ) + 1 ≤ kMaxAppendSize) :
    ∃ a b, Endpoint.init addr port = some (.ok a) ∧ Endpoint.init addr' port' = some (.ok b) ∧
      (a.eq b = true ↔ addr = addr' ∧ port = port') ∧
      (a.str = b.str ↔ addr = addr' ∧ port = port') ∧
      a.eq .new = false ∧ a.str ≠ Endpoint.new.str := by
  have hnew := Endpoint.format_ne_new addr port
  refine ⟨_, _, Endpoint.init_eq hlen, Endpoint.init_eq hlen', ?_, Endpoint.format_inj h0 h0', ?_,
    hnew⟩
  · unfold Endpoint.eq
    rw [Bool.and_eq_true, decide_eq_true_iff, decide_eq_true_iff, Endpoint.format_inj h0 h0']
    exact ⟨fun h => h.2, fun h => ⟨h.2, h⟩⟩
  · unfold Endpoint.eq
    rw [decide_eq_false hnew, Bool.and_false]

/-- An address with a colon in it. -/
theorem endpoint_eq_iff_colon : ∃ a b, Endpoint.init [0x3a, 0x3a, 0x31] 80 = some (.ok a) ∧
    Endpoint.init [0x3a, 0x3a] 180 = some (.ok b) ∧ a.eq b = false ∧ a.str ≠ b.str := by
  obtain ⟨a, b, ha, hb, heq, hstr, -⟩ :=
    @endpoint_eq_iff [0x3a, 0x3a, 0x31] [0x3a, 0x3a] 80 180 (by simp) (by simp) (by decide)
      (by decide)
  refine ⟨a, b, ha, hb, ?_, fun h => ?_⟩
  · rw [← Bool.not_eq_true, heq]
    simp
  · have haddr := (hstr.mp h).1
    simp at haddr

end ServerKit
