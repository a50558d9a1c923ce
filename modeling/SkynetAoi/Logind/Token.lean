import SkynetAoi.Crypt.Text
import SkynetAoi.Lib.Pattern

/-!
This module contains the token that a user logs in with, as `client.lua` makes it and as the
`auth_handler` of `logind.lua` takes it apart.
-/

namespace Logind

structure Token where
  server : Bytes
  user : Bytes
  pass : Bytes

def encodeToken (token : Token) : Bytes :=
  Crypt.base64encode token.user
    ++ '@'.toUInt8 :: (Crypt.base64encode token.server
      ++ ':'.toUInt8 :: Crypt.base64encode token.pass)

-- `([^@]+)@([^:]+):(.+)`
def tokenPattern : List (Pattern.Item UInt8) :=
  [.capture (· ≠ '@'.toUInt8), .char '@'.toUInt8, .capture (· ≠ ':'.toUInt8), .char ':'.toUInt8,
    .capture fun _ => true]

-- The first argument is the answer of `redisd`. `none` is an error, as for a token that does not match.
def authHandler (checkuser : Bytes → Bytes → Bytes → Bool) (token : Bytes) : Option (Bytes × Bytes) :=
  match Pattern.find tokenPattern token with
  | some [user, server, password] => do
    let user ← Crypt.base64decode user
    let server ← Crypt.base64decode server
    let password ← Crypt.base64decode password
    if checkuser server user password then some (server, user) else none
  | _ => none

theorem not_mem_base64encode {c : UInt8} (h : Crypt.noise c = true) (text : Bytes)
    : c ∉ Crypt.base64encode text := by
  intro hmem
  rw [← Crypt.letters_base64encode, Crypt.letters, List.mem_filter, h] at hmem
  exact absurd hmem.2 (by decide)

theorem base64encode_eq_nil_iff (text : Bytes) : Crypt.base64encode text = [] ↔ text = [] := by
  fun_cases Crypt.base64encode text <;> simp

theorem find_tokenPattern (token : Token)
    : Pattern.find tokenPattern (encodeToken token)
        = if token.user = [] ∨ token.server = [] ∨ token.pass = [] then
            none
          else
            some [Crypt.base64encode token.user, Crypt.base64encode token.server,
              Crypt.base64encode token.pass] := by
  have hat : Crypt.noise '@'.toUInt8 = true := by decide
  have hcolon : Crypt.noise ':'.toUInt8 = true := by decide
  have hclass : ∀ {c : UInt8}, Crypt.noise c = true
      → ∀ text, ∀ x ∈ Crypt.base64encode text, decide (x ≠ c) = true := by
    intro c hc text x hx
    rw [decide_eq_true_eq]
    rintro rfl
    exact not_mem_base64encode hc text hx
  have hrest : '@'.toUInt8 ∉ Crypt.base64encode token.server
      ++ ':'.toUInt8 :: Crypt.base64encode token.pass := by
    simp only [List.mem_append, List.mem_cons, not_or]
    exact ⟨not_mem_base64encode hat _, by decide, not_mem_base64encode hat _⟩
  unfold encodeToken tokenPattern
  rw [Pattern.find_delimited (hclass hat token.user) (by decide) hrest]
  by_cases huser : token.user = []
  . rw [if_pos ((base64encode_eq_nil_iff _).mpr huser), if_pos (.inl huser)]
  rw [if_neg ((base64encode_eq_nil_iff _).not.mpr huser)]
  by_cases hserver : token.server = []
  . have hnone : Pattern.matchHere [.capture (· ≠ ':'.toUInt8), .char ':'.toUInt8,
        .capture fun _ => true] (Crypt.base64encode token.server
          ++ ':'.toUInt8 :: Crypt.base64encode token.pass) = none := by
      rw [hserver]
      exact Pattern.matchHere_capture_of_not (by simp [Crypt.base64encode])
    rw [hnone, if_pos (.inr (.inl hserver))]
    rfl
  rw [Pattern.matchHere_delimited ((base64encode_eq_nil_iff _).not.mpr hserver)
    (hclass hcolon token.server) (by decide)]
  by_cases hpass : token.pass = []
  . rw [hpass, if_pos (.inr (.inr rfl))]
    rfl
  . rw [Pattern.matchHere_rest ((base64encode_eq_nil_iff _).not.mpr hpass),
      if_neg (by simp [huser, hserver, hpass])]
    rfl

theorem authHandler_encodeToken (checkuser : Bytes → Bytes → Bytes → Bool) (token : Token)
    : authHandler checkuser (encodeToken token)
        = if token.user = [] ∨ token.server = [] ∨ token.pass = [] then
            none
          else if checkuser token.server token.user token.pass then
            some (token.server, token.user)
          else
            none := by
  unfold authHandler
  rw [find_tokenPattern]
  by_cases hempty : token.user = [] ∨ token.server = [] ∨ token.pass = []
  . rw [if_pos hempty, if_pos hempty]
  . rw [if_neg hempty, if_neg hempty]
    simp only [Crypt.base64decode_base64encode, Option.bind_eq_bind, Option.bind_some]

end Logind
