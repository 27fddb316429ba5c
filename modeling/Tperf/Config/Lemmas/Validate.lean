import Tperf.Config.Validate
import Tperf.Net.Theorems

/-!
# What `validate` accepts
-/

namespace Tperf.Config
open Lib Net Proto

/-- An accepted tag. -/
structure ValidTag (tag : Str) : Prop extends PlainName tag where
  backslash : '\\' ∉ tag
  nul : '\x00' ∉ tag

structure Valid (cfg : Config) : Prop where
  tag : ValidTag cfg.tag
  workers : cfg.workers ≠ 0
  payloadSize : cfg.payloadSize ≠ 0
  hostlist : 2 ≤ cfg.hostlist.length
  clientAddr : ∃ host port, parseHostPort cfg.clientAddr = .ok (host, port) ∧ port ≠ 0
  testAddr : ∃ host port, parseHostPort cfg.testAddr = .ok (host, port) ∧ port ≠ 0 ∧
    isUnspecifiedHost host = false

theorem validTag_iff {tag : Str} :
    ¬ (tag = [] ∨ '/' ∈ tag ∨ '\\' ∈ tag ∨ '\x00' ∈ tag ∨ tag = ".".toList ∨ tag = "..".toList) ↔
      ValidTag tag := by
  constructor
  · intro h
    simp only [not_or] at h
    exact ⟨⟨h.1, h.2.1, h.2.2.2.2.1, h.2.2.2.2.2⟩, h.2.2.1, h.2.2.2.1⟩
  · intro h
    simp only [not_or]
    exact ⟨h.nonempty, h.slash, h.backslash, h.nul, h.notDot, h.notDotDot⟩

/-- A host that was read is not empty, so one check of `validate` never fails. -/
theorem host_nonempty {s h : Str} {port : UInt16} (hok : parseHostPort s = .ok (h, port)) : h ≠ [] :=
  ((parseHostPort_iff s h port).mp hok).host_nonempty

theorem guard_eq_ok {ε : Type} {c : Prop} [Decidable c] {e : ε} {x : Outcome ε Unit} :
    (if c then .err e else x) = .ok () ↔ ¬ c ∧ x = .ok () := by
  split <;> simp_all

theorem validate_iff (cfg : Config) : validate cfg = .ok () ↔ Valid cfg := by
  unfold validate
  simp only [guard_eq_ok, validTag_iff, Outcome.bind_eq_ok, Outcome.mapErr_eq_ok, Prod.exists]
  constructor
  · rintro ⟨htag, hworkers, hpayload, -, hfew, cHost, cPort, hclient, hcPort, tHost, tPort, htest, -, htPort,
      hunspec, -⟩
    exact ⟨htag, hworkers, hpayload, Nat.le_of_not_lt hfew, ⟨cHost, cPort, hclient, hcPort⟩,
      ⟨tHost, tPort, htest, htPort, Bool.eq_false_iff.mpr hunspec⟩⟩
  · intro h
    obtain ⟨cHost, cPort, hclient, hcPort⟩ := h.clientAddr
    obtain ⟨tHost, tPort, htest, htPort, hunspec⟩ := h.testAddr
    have hhosts : cfg.hostlist ≠ [] := List.ne_nil_of_length_pos (Nat.lt_of_lt_of_le (by decide) h.hostlist)
    exact ⟨h.tag, h.workers, h.payloadSize, hhosts, Nat.not_lt.mpr h.hostlist, cHost, cPort, hclient, hcPort,
      tHost, tPort, htest, host_nonempty htest, htPort, Bool.eq_false_iff.mp hunspec, trivial⟩

theorem Valid.testPort {cfg : Config} (h : Valid cfg) : ∃ port, testPort cfg = .ok port := by
  obtain ⟨host, port, hok, -⟩ := h.testAddr
  exact ⟨port, by rw [Config.testPort, hok]; rfl⟩

theorem Valid.testFamily {cfg : Config} (h : Valid cfg) : ∃ family, testFamily cfg = .ok family := by
  obtain ⟨host, port, hok, -⟩ := h.testAddr
  exact ⟨familyOfHost host, by rw [Config.testFamily, hok]; rfl⟩

end Tperf.Config
