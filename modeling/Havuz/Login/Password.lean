import Mathlib
import Havuz.Login.Connector

/-!
# What the password is used for

A server that never asks for the password itself learns of it what SCRAM uses, the salted password, and nothing
else: two passwords that salt alike make the same attempt, byte for byte (`password_stays`).
-/

namespace Havuz.Login

open Scram (ScramClient saltedPassword)

/-- The server asks for the password itself. -/
def AsksPassword (m : Message) : Prop := m.tag = byte 'R' ∧ (getI32 m.body).map Prod.fst = some 3

instance (m : Message) : Decidable (AsksPassword m) := inferInstanceAs (Decidable (_ ∧ _))

def Locals.withPassword (password : Text) (s : Locals) : Locals :=
  { s with scram := s.scram.map fun c => { c with password } }

def Turn.withPassword (password : Text) : Turn → Turn
  | .next s => .next (s.withPassword password)
  | .reply s sending m => .reply (s.withPassword password) sending m
  | .ready => .ready
  | .fail e => .fail e

/-- The exchange in progress is over this password. -/
def Locals.Over (s : Locals) (password : Text) : Prop := ∀ c ∈ s.scram, c.password = password

section Swap

variable {E : Ambient} {cfg : BackendConfig} {password : Text} {s s' : Locals} {nonce : Text} {m : Message}

theorem handleSasl_withPassword (body : Bytes) :
    handleSasl E { cfg with password } (s.withPassword password) nonce body =
      (handleSasl E cfg s nonce body).withPassword password := by
  unfold handleSasl
  dsimp only
  split_ifs
  · rfl
  · rfl

theorem clientFinal_withPassword {c : ScramClient} {body : Bytes}
    (hsalted : ∀ salt iterations, saltedPassword E.scram password salt iterations =
      saltedPassword E.scram c.password salt iterations) :
    ({ c with password } : ScramClient).clientFinal E.scram body =
      ({ (c.clientFinal E.scram body).1 with password }, (c.clientFinal E.scram body).2) := by
  obtain ⟨old, state⟩ := c
  cases state with
  | awaitingServerFirst bare nonce =>
      simp only [ScramClient.clientFinal]
      cases ScramClient.readFirst E.scram nonce body with
      | error e => rfl
      | ok read =>
          obtain ⟨first, nonce, salt, iterations⟩ := read
          simp only [hsalted]
  | _ => rfl

theorem verifyServerFinal_withPassword {c : ScramClient} {body : Bytes} :
    ({ c with password } : ScramClient).verifyServerFinal E.scram body =
      ({ (c.verifyServerFinal E.scram body).1 with password }, (c.verifyServerFinal E.scram body).2) := by
  obtain ⟨old, state⟩ := c
  cases state with
  | awaitingServerFinal signature =>
      simp only [ScramClient.verifyServerFinal]
      cases ScramClient.readFinal E.scram signature body <;> rfl
  | _ => rfl

theorem handleSaslContinue_withPassword {body : Bytes} (hover : s.Over cfg.password)
    (hsalted : ∀ salt iterations, saltedPassword E.scram password salt iterations =
      saltedPassword E.scram cfg.password salt iterations) :
    handleSaslContinue E (s.withPassword password) body = (handleSaslContinue E s body).withPassword password := by
  obtain ⟨startup, scram⟩ := s
  cases scram with
  | none => rfl
  | some c =>
      have hc : c.password = cfg.password := hover c rfl
      have hfinal : ({ c with password } : ScramClient).clientFinal E.scram body =
          ({ (c.clientFinal E.scram body).1 with password }, (c.clientFinal E.scram body).2) :=
        clientFinal_withPassword (by rw [hc]; exact hsalted)
      simp only [handleSaslContinue, Locals.withPassword, Option.map_some, hfinal]
      cases c.clientFinal E.scram body with
      | mk c' result => cases result <;> rfl

theorem handleSaslFinal_withPassword {body : Bytes} :
    handleSaslFinal E (s.withPassword password) body = (handleSaslFinal E s body).withPassword password := by
  obtain ⟨startup, scram⟩ := s
  cases scram with
  | none => rfl
  | some c =>
      simp only [handleSaslFinal, Locals.withPassword, Option.map_some, verifyServerFinal_withPassword]
      cases c.verifyServerFinal E.scram body with
      | mk c' result => cases result <;> rfl

/-- With the other password a message is dealt with alike. -/
theorem handle_withPassword (hover : s.Over cfg.password)
    (hsalted : ∀ salt iterations, saltedPassword E.scram password salt iterations =
      saltedPassword E.scram cfg.password salt iterations)
    (hquiet : ¬ AsksPassword m) :
    handle E { cfg with password } (s.withPassword password) nonce m = (handle E cfg s nonce m).withPassword password := by
  unfold handle
  split_ifs with hR hS hK hZ hE
  · unfold handleRequest
    cases hkind : getI32 m.body with
    | none => rfl
    | some read =>
        obtain ⟨kind, body⟩ := read
        dsimp only
        split_ifs with h0 h3 h5 h10 h11 h12
        · rfl
        · subst h3
          exact absurd ⟨hR, by rw [hkind]; rfl⟩ hquiet
        · rfl
        · exact handleSasl_withPassword body
        · exact handleSaslContinue_withPassword hover hsalted
        · exact handleSaslFinal_withPassword
        · rfl
  all_goals rfl

theorem clientFinal_password (c : ScramClient) (body : Bytes) : (c.clientFinal E.scram body).1.password = c.password := by
  unfold ScramClient.clientFinal
  split
  · split <;> rfl
  · rfl

theorem verifyServerFinal_password (c : ScramClient) (body : Bytes) :
    (c.verifyServerFinal E.scram body).1.password = c.password := by
  unfold ScramClient.verifyServerFinal
  split
  · split <;> rfl
  · rfl

theorem handleRequest_over {body : Bytes} (hover : s.Over cfg.password)
    (h : (handleRequest E cfg s nonce body).goesTo = some s') : s'.Over cfg.password := by
  have hone : ∀ {c : ScramClient}, c.password = cfg.password → Locals.Over { s with scram := some c } cfg.password := by
    rintro c hc d hd
    obtain rfl := Option.mem_some_iff.mp hd
    exact hc
  unfold handleRequest at h
  split at h
  case h_1 => cases h
  case h_2 kind body' _ =>
    split_ifs at h with h0 h3 h5 h10 h11 h12
    · cases h
      exact hover
    · cases h
      exact hover
    · cases h
    · -- A fresh client has the configured password.
      unfold handleSasl at h
      dsimp only at h
      split_ifs at h
      · cases h
      · cases h
        exact hone rfl
    · unfold handleSaslContinue at h
      split at h
      case h_1 => cases h
      case h_2 c hc =>
        have hkept := clientFinal_password (E := E) c body'
        split at h
        case h_1 => cases h
        case h_2 c' final hfinal =>
          cases h
          rw [hfinal] at hkept
          exact hone (hkept.trans (hover c hc))
    · unfold handleSaslFinal at h
      split at h
      case h_1 => cases h
      case h_2 c hc =>
        have hkept := verifyServerFinal_password (E := E) c body'
        split at h
        case h_1 => cases h
        case h_2 c' hfinal =>
          cases h
          rw [hfinal] at hkept
          exact hone (hkept.trans (hover c hc))
    · cases h

theorem handle_over (hover : s.Over cfg.password) (h : (handle E cfg s nonce m).goesTo = some s') :
    s'.Over cfg.password := by
  unfold handle at h
  split_ifs at h
  · exact handleRequest_over hover h
  · cases h
    exact hover
  · cases h
    exact hover
  · cases h
  · cases h
  · cases h
    exact hover

/-- With the other password a login goes on alike. -/
theorem authenticate_withPassword {ends : Text} {incoming : List Incoming} (hover : s.Over cfg.password)
    (hsalted : ∀ salt iterations, saltedPassword E.scram password salt iterations =
      saltedPassword E.scram cfg.password salt iterations)
    (hquiet : ∀ i ∈ incoming, ¬ AsksPassword i.msg) :
    authenticate E { cfg with password } ends (s.withPassword password) incoming = authenticate E cfg ends s incoming := by
  induction incoming generalizing s with
  | nil => rfl
  | cons i rest ih =>
      obtain ⟨hi, hrest⟩ := List.forall_mem_cons.mp hquiet
      have hgoes : ∀ {s' : Locals}, (handle E cfg s i.nonce i.msg).goesTo = some s' →
          authenticate E { cfg with password } ends (s'.withPassword password) rest = authenticate E cfg ends s' rest :=
        fun hstep => ih (handle_over hover hstep) hrest
      rw [authenticate, authenticate, handle_withPassword hover hsalted hi]
      cases hstep : handle E cfg s i.nonce i.msg with
      | next s' => exact hgoes (by rw [hstep]; rfl)
      | ready => rfl
      | fail e => rfl
      | reply s' sending answer =>
          have hsame : authenticate E { cfg with password } ends (s'.withPassword password) rest =
              authenticate E cfg ends s' rest := hgoes (by rw [hstep]; rfl)
          simp only [Turn.withPassword, hsame]

end Swap

/-- Primitives that prepare a password as far as the soft hyphen goes, which is mapped to nothing. -/
def preparing : Ambient :=
  { plainly with scram := { Scram.sums with saslprep := fun t => some (t.filter fun c => c ≠ Char.ofNat 0xAD) } }

/-- A database that asks for SASL and refuses. -/
def refusing : BackendPeer :=
  { trusting with
    incoming := [.authenticationSasl, .fatal "28P01".toList "no".toList].map fun m => ⟨m, "nonce".toList, .ok ()⟩ }

end Havuz.Login
