import Mathlib.Data.List.Basic
import RequestEcho.Address.Printer
import RequestEcho.Proofs.Address.Grammar

/-!
# The characters of an address

A text that denotes an address is made of hexadecimal digits and five marks (`Spelled.madeOf`), so no sign and no blank
stands in it.  It ends with the port: whatever digits stand behind its last colon are a numeral of the port
(`Spelled.port_of_digits`), and whatever digits stand between a percent sign and a bracket are a numeral of the scope
(`Spelled.scope_of_digits`).  No run of digits is cut short or taken for a smaller number.
-/

namespace RequestEcho

open Numeral

/-- A text of hexadecimal digits and of `marks`. -/
def MadeOf (marks t : Text) : Prop := ∀ c ∈ t, isDigit 16 c = true ∨ c ∈ marks

variable {marks marks' s t : Text}

@[simp] theorem madeOf_nil (marks : Text) : MadeOf marks [] := by
  simp [MadeOf]

@[simp] theorem madeOf_cons_iff {c : Char} :
    MadeOf marks (c :: t) ↔ (isDigit 16 c = true ∨ c ∈ marks) ∧ MadeOf marks t := by
  simp [MadeOf]

@[simp] theorem madeOf_append_iff : MadeOf marks (s ++ t) ↔ MadeOf marks s ∧ MadeOf marks t := by
  simp [MadeOf, or_imp, forall_and]

theorem MadeOf.mono (h : MadeOf marks t) (hsub : marks ⊆ marks') : MadeOf marks' t := by
  intro c hc
  exact (h c hc).imp_right fun hmem => hsub hmem

theorem MadeOf.notMem (h : MadeOf marks t) {c : Char} (hdigit : isDigit 16 c = false) (hmark : c ∉ marks) : c ∉ t := by
  intro hc
  rcases h c hc with hd | hm
  · rw [hdigit] at hd
    cases hd
  · exact hmark hm

theorem Numeral.Spelled.madeOf {base n : Nat} (hbase : base ≤ 16) (h : Numeral.Spelled base n t) (marks : Text) :
    MadeOf marks t := by
  intro c hc
  exact .inl (isDigit_of_le hbase (h.isDigit_of_mem hbase hc))

theorem Ipv4.Spelled.madeOf {ip : Ipv4} (h : ip.Spelled t) : MadeOf ['.'] t := by
  cases h with
  | octets ha hb hc hd =>
    have hoctet {x : UInt8} {s : Text} (hx : IsOctet x s) : MadeOf ['.'] s := hx.value.madeOf (by omega) _
    simp [hoctet ha, hoctet hb, hoctet hc, hoctet hd]

namespace Ipv6

theorem Row.madeOf {sep : Text} {gs : List UInt16} {dotted : Bool} (h : Row sep gs dotted t)
    (hsep : MadeOf ['.', ':'] sep) : MadeOf ['.', ':'] t := by
  induction h with
  | nil sep => exact madeOf_nil _
  | ipv4 sep h =>
    exact madeOf_append_iff.2 ⟨hsep, h.madeOf.mono (by simp)⟩
  | cons sep hgroup _ ih =>
    have hrest := ih (by simp)
    simp [hsep, hgroup.value.madeOf, hrest]

theorem Spelled.madeOf {ip : Ipv6} (h : ip.Spelled t) : MadeOf ['.', ':'] t := by
  cases h with
  | row h => exact h.madeOf (madeOf_nil _)
  | gap _ _ hbefore hafter =>
    simp [hbefore.madeOf (madeOf_nil _), hafter.madeOf (madeOf_nil _)]

end Ipv6

namespace SocketAddress

variable {address : SocketAddress} {n : Nat}

theorem Spelled.madeOf (h : address.Spelled t) : MadeOf ['.', ':', '[', ']', '%'] t := by
  have hnumeral {m : Nat} {s : Text} (hs : Numeral.Spelled 10 m s) : MadeOf ['.', ':', '[', ']', '%'] s :=
    hs.madeOf (by omega) _
  cases h with
  | v4 hip hport =>
    have hhost : MadeOf ['.', ':', '[', ']', '%'] _ := hip.madeOf.mono (by simp)
    simp [hhost, hnumeral hport]
  | v6 hip hscope hport =>
    have hhost : MadeOf ['.', ':', '[', ']', '%'] _ := hip.madeOf.mono (by simp)
    cases hscope with
    | absent => simp [hhost, hnumeral hport]
    | present hs => simp [hhost, hnumeral hport, hnumeral hs]

theorem Spelled.exists_port (h : address.Spelled t) :
    ∃ host digits, t = host ++ ':' :: digits ∧ Numeral.Spelled 10 address.port.toNat digits := by
  cases h with
  | @v4 _ _ s digits _ hport => exact ⟨s, digits, rfl, hport⟩
  | @v6 _ _ _ t s digits _ _ hport => exact ⟨'[' :: (t ++ (s ++ [']'])), digits, by simp, hport⟩

/-- The last character is a digit of the port. -/
theorem Spelled.exists_getLast? (h : address.Spelled t) : ∃ c ∈ t.getLast?, isDigit 10 c = true := by
  obtain ⟨host, digits, rfl, hport⟩ := h.exists_port
  rcases List.eq_nil_or_concat' digits with rfl | ⟨front, c, rfl⟩
  · exact absurd rfl hport.ne_nil
  · have hlast : host ++ ':' :: (front ++ [c]) = (host ++ ':' :: front) ++ [c] := by simp
    rw [hlast, List.getLast?_concat]
    exact ⟨c, rfl, hport.isDigit_of_mem (by omega) (by simp)⟩

/-- The last colon is the one in front of the port. -/
theorem Spelled.port_of_digits {host digits : Text} (h : address.Spelled (host ++ ':' :: digits))
    (hdigits : Numeral.Spelled 10 n digits) : address.port.toNat = n := by
  obtain ⟨host', digits', heq, hport⟩ := h.exists_port
  have hmem {m : Nat} {s : Text} (hs : Numeral.Spelled 10 m s) (c : Char) (hc : c ∈ s.reverse) :
      isDigit 10 c = true := hs.isDigit_of_mem (by omega) (List.mem_reverse.1 hc)
  -- read from the end, both numerals are the run of digits
  have hreverse : digits.reverse ++ ':' :: host.reverse = digits'.reverse ++ ':' :: host'.reverse := by
    simpa using congrArg List.reverse heq
  have hcut :=
    append_inj_of_ends (hmem hdigits) (hmem hport) (ends_cons (by decide) _) (ends_cons (by decide) _) hreverse
  rw [List.reverse_inj.1 hcut.1] at hdigits
  exact hport.unique (by omega) hdigits

/-- The only percent sign is the one in front of the scope. -/
theorem Spelled.scope_of_digits {before scope after : Text}
    (h : address.Spelled (before ++ '%' :: (scope ++ ']' :: after))) (hscope : Numeral.Spelled 10 n scope) :
    ∃ ip m port, address = .v6 ip m port ∧ m.toNat = n := by
  generalize htext : before ++ '%' :: (scope ++ ']' :: after) = text at h
  have hnumeral {m : Nat} {s : Text} (hs : Numeral.Spelled 10 m s) : '%' ∉ s :=
    (hs.madeOf (by omega) []).notMem (by decide) (by simp)
  have hmem : '%' ∈ text := by
    rw [← htext]
    simp
  cases h with
  | v4 hip hport =>
    have hhost := hip.madeOf.notMem (c := '%') (by decide) (by decide)
    simp [hhost, hnumeral hport] at hmem
  | @v6 ip m port t s digits hip hs hport =>
    have hhost := hip.madeOf.notMem (c := '%') (by decide) (by decide)
    cases hs with
    | absent => simp [hhost, hnumeral hport] at hmem
    | @present _ s hs =>
      have hfront : '%' ∉ '[' :: t := by simp [hhost]
      have hback : '%' ∉ s ++ ']' :: ':' :: digits := by simp [hnumeral hs, hnumeral hport]
      have heq : ('[' :: t) ++ '%' :: (s ++ ']' :: ':' :: digits) = before ++ '%' :: (scope ++ ']' :: after) := by
        simpa using htext.symm
      obtain ⟨-, -, hrest⟩ := (List.append_cons_inj_of_notMem hfront hback).1 heq
      have hcut := append_inj_of_ends (fun c hc => hs.isDigit_of_mem (by omega) hc)
        (fun c hc => hscope.isDigit_of_mem (by omega) hc) (ends_cons (by decide) _) (ends_cons (by decide) _) hrest
      rw [← hcut.1] at hscope
      exact ⟨ip, m, port, rfl, hs.unique (by omega) hscope⟩

end SocketAddress

end RequestEcho
