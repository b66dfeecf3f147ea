import PageSpeed.Base.StringUtil
import PageSpeed.Base.Ascii
import PageSpeed.Lib.Unambiguous

/-!
The addresses of external servers, and how a Redis server names another one in
a redirection.
-/

namespace PageSpeed

structure ExternalServerSpec where
  host : GoogleString := []
  port : ℤ := 0
  deriving DecidableEq

namespace ExternalServerSpec

def kUnixSocketPort : ℤ := -1

def integerToString (i : ℤ) : GoogleString :=
  if i < 0 then 45 :: Decimal.digits 10 i.natAbs else Decimal.digits 10 i.natAbs

def isEmpty (spec : ExternalServerSpec) : Bool := spec.host.isEmpty && decide (spec.port = 0)

def toString (spec : ExternalServerSpec) : GoogleString :=
  if spec.isEmpty then []
  else if spec.port = kUnixSocketPort then ascii "unix:" ++ spec.host
  else spec.host ++ [58] ++ integerToString spec.port

/-- `MOVED 12182 127.0.0.1:7215`: the third token says whom to ask. -/
def parseRedirectionError (error : GoogleString) : ExternalServerSpec :=
  match splitStringPieceToVector error [32] true with
  | [_, _, hostPort] =>
    match splitStringPieceToVector hostPort [58] false with
    | [host, port] =>
      match stringToInt port with
      | some port => if host.isEmpty || decide (port < 1 ∨ 65535 < port) then {} else ⟨host, port⟩
      | none => {}
    | _ => {}
  | _ => {}

def Network (spec : ExternalServerSpec) : Prop := 1 ≤ spec.port ∧ spec.port ≤ 65535

variable {spec spec' : ExternalServerSpec}

theorem Network.toString_eq (h : Network spec) :
    spec.toString = spec.host ++ [58] ++ Decimal.digits 10 spec.port.toNat := by
  obtain ⟨hlow, hhigh⟩ := h
  have hempty : ¬ spec.isEmpty = true := by
    rw [isEmpty, Bool.and_eq_true, decide_eq_true_eq]
    omega
  rw [toString, if_neg hempty, if_neg (by rw [kUnixSocketPort]; omega), integerToString, if_neg (by omega)]
  congr 2
  omega

theorem notMem_digits (fuel n : ℕ) : (58 : UInt8) ∉ Decimal.digits fuel n := fun h =>
  absurd (List.all_eq_true.mp (Decimal.digits_all fuel n) 58 h) (by decide)

theorem Network.eq_of_toString (h : Network spec) (h' : Network spec') (heq : spec.toString = spec'.toString) :
    spec = spec' := by
  rw [h.toString_eq, h'.toString_eq] at heq
  have hreversed := congrArg List.reverse heq
  simp only [List.reverse_append, ← List.append_assoc] at hreversed
  obtain ⟨hdigits, hhost⟩ := Reads.until_letter 58 _ _ _ _
    (List.mem_reverse.not.mpr (notMem_digits 10 _)) (List.mem_reverse.not.mpr (notMem_digits 10 _))
    trivial trivial hreversed
  have hport : spec.port.toNat = spec'.port.toNat := by
    have hvalue := congrArg Decimal.value (List.reverse_injective hdigits)
    have hlt : spec.port.toNat < 10 ^ 10 ∧ spec'.port.toNat < 10 ^ 10 := by
      have hhigh := h.2
      have hhigh' := h'.2
      omega
    rwa [Decimal.value_digits 10 _ hlt.1, Decimal.value_digits 10 _ hlt.2] at hvalue
  have hlow := h.1
  have hlow' := h'.1
  exact congrArg₂ ExternalServerSpec.mk (List.reverse_injective hhost) (by omega)

end ExternalServerSpec

end PageSpeed
