import CredentialBench.Proofs.Net.Address
import CredentialBench.Simulator.Listener

/-!
# Where the simulator listens

The host of the settings is any text, and the address to listen on is put together from it by its
first character and its colons alone. Still no host slips through: the address is one exactly when
the host is an address of version 4, or one of version 6 with an optional zone, alone or in brackets
(`SpellsHost`), and then it is that address at the port of the settings (`bindAddress_denotes`). The
port is what follows the last colon, so that no colon of the host is taken for the one before it.
-/

namespace CredentialBench.Simulator

open Net

/-- A text of a host that is an address: of version 4, or of version 6 with its zone, alone or in
brackets. -/
inductive SpellsHost : Ip → UInt32 → List Char → Prop
  | v4 (ip : Ipv4) : SpellsHost (.v4 ip) 0 ip.text.toList
  | bare {ip : Ipv6} {zone : UInt32} {cs zs : List Char} (h : ip.Spells cs)
      (hz : SpellsZone zone zs) : SpellsHost (.v6 ip) zone (cs ++ zs)
  | bracketed {ip : Ipv6} {zone : UInt32} {cs zs : List Char} (h : ip.Spells cs)
      (hz : SpellsZone zone zs) : SpellsHost (.v6 ip) zone ('[' :: (cs ++ zs) ++ [']'])

/-- A host as it stands before the port. -/
def enclose (host : List Char) : List Char :=
  if host.contains ':' && host.head? != some '[' then '[' :: host ++ [']'] else host

variable {s : Settings} {a : SocketAddress} {ip : Ip} {zone : UInt32} {host : List Char}

theorem Settings.toList_bindAddress (s : Settings) :
    s.bindAddress.toList = enclose s.host.toList ++ ':' :: Nat.toDigits 10 s.port.toNat := by
  unfold bindAddress enclose
  split <;> simp

/-- **Brackets are put where they are missing**, and nowhere else. -/
theorem spellsEnclosed_enclose_iff :
    SpellsEnclosed ip zone (enclose host) ↔ SpellsHost ip zone host := by
  by_cases hbare : ':' ∈ host ∧ host.head? ≠ some '['
  · have henclose : enclose host = '[' :: host ++ [']'] := by simp [enclose, hbare]
    rw [henclose]
    constructor
    · intro h
      generalize htext : '[' :: host ++ [']'] = text at h
      cases h with
      | v4 ip =>
        have hmem : '[' ∈ ip.text.toList := by simp [← htext]
        exact absurd (ip.mem_text hmem) (by decide)
      | v6 h hz =>
        obtain rfl := List.append_cancel_right (List.cons.inj htext).2
        exact .bare h hz
    · intro h
      cases h with
      | v4 ip => exact absurd (ip.mem_text hbare.1) (by decide)
      | bare h hz => exact .v6 h hz
      | bracketed => exact absurd rfl hbare.2
  · have henclose : enclose host = host := by
      rw [enclose, if_neg (by simpa using hbare)]
    rw [henclose]
    constructor
    · rintro (_ | ⟨h, hz⟩)
      · exact .v4 _
      · exact .bracketed h hz
    · intro h
      cases h with
      | v4 ip => exact .v4 ip
      | bracketed h hz => exact .v6 h hz
      | @bare ip zone cs zs h hz =>
        refine absurd ⟨List.mem_append_left zs h.colon_mem, fun hhead => ?_⟩ hbare
        rw [List.head?_append_of_ne_nil _ (List.ne_nil_of_mem h.colon_mem)] at hhead
        exact absurd (h.mem (List.mem_of_mem_head? hhead)) (by decide)

/-- The text to listen on is a socket address just if the host is an address. -/
theorem ofText?_bindAddress :
    SocketAddress.ofText? s.bindAddress = some a ↔
      SpellsHost a.ip a.zone s.host.toList ∧ a.port = s.port := by
  have hport : Text.Numeral 10 (Nat.toDigits 10 s.port.toNat) s.port.toNat :=
    Text.numeral_toDigits (by decide) (by decide) _
  have hcolon : ∀ {ds n}, Text.Numeral 10 ds n → ':' ∉ ds := fun h hc =>
    absurd (isDigitOf_of_numeral h ':' hc) (by decide)
  rw [SocketAddress.ofText?, s.toList_bindAddress, ofChars?_eq_some_iff,
    ← spellsEnclosed_enclose_iff]
  constructor
  · rintro ⟨host, ds, he, hhost, hds⟩
    obtain ⟨rfl, rfl⟩ := Text.append_cons_inj_last (hcolon hport) (hcolon hds) he
    exact ⟨hhost, UInt16.toNat_inj.1 (hds.unique hport)⟩
  · rintro ⟨hhost, hsame⟩
    exact ⟨_, _, rfl, hhost, hsame ▸ hport⟩

/-- **The address to listen on is the host and the port of the settings**, if the host is an address
at all. If it is none, the text is reported, whatever the network would give. -/
theorem bindAddress_denotes (s : Settings) :
    (∀ a, SocketAddress.ofText? s.bindAddress = some a ↔
        SpellsHost a.ip a.zone s.host.toList ∧ a.port = s.port) ∧
      ∀ net : Network,
        (∀ ip zone, SpellsHost ip zone s.host.toList →
          listen net s = (net.bind ⟨ip, zone, s.port⟩).mapError (.bind ⟨ip, zone, s.port⟩)) ∧
        ∀ text, listen net s = .error (.invalidAddress text) ↔
          text = s.bindAddress ∧ ∀ ip zone, ¬SpellsHost ip zone s.host.toList := by
  have hread : ∀ {ip zone}, SpellsHost ip zone s.host.toList →
      SocketAddress.ofText? s.bindAddress = some ⟨ip, zone, s.port⟩ :=
    fun h => ofText?_bindAddress.2 ⟨h, rfl⟩
  refine ⟨fun a => ofText?_bindAddress, fun net => ⟨fun ip zone h => ?_, fun text => ?_⟩⟩
  · rw [listen, hread h]
  · cases htext : SocketAddress.ofText? s.bindAddress with
    | none =>
      have hnone : ∀ ip zone, ¬SpellsHost ip zone s.host.toList := fun ip zone h =>
        absurd (htext.symm.trans (hread h)) (by simp)
      simp [listen, htext, hnone, eq_comm]
    | some a =>
      have hhost := (ofText?_bindAddress.1 htext).1
      have hbind : listen net s ≠ .error (.invalidAddress text) := by
        simp only [listen, htext]
        cases net.bind a <;> simp [Except.mapError]
      exact ⟨fun h => absurd h hbind, fun h => absurd hhost (h.2 _ _)⟩

/-- A host with a zone is listened on, and one in two pairs of brackets is no address. -/
theorem bindAddress_denotes_brackets :
    listen .quiet ⟨"::1%7", 18200⟩ = .ok ⟨.v6 ⟨[0, 0, 0, 0, 0, 0, 0, 1], rfl⟩, 7, 18200⟩ ∧
      ∀ ip zone, ¬SpellsHost ip zone "[[::1]]".toList := by
  obtain ⟨hzoned, hlisten⟩ := bindAddress_denotes ⟨"::1%7", 18200⟩
  obtain ⟨-, hdoubled⟩ := bindAddress_denotes ⟨"[[::1]]", 18200⟩
  have hhost := ((hzoned ⟨.v6 ⟨[0, 0, 0, 0, 0, 0, 0, 1], rfl⟩, 7, 18200⟩).1 (by decide)).1
  constructor
  · rw [(hlisten .quiet).1 _ _ hhost]
    decide
  · exact (((hdoubled .quiet).2 "[[::1]]:18200").1 (by decide)).2

end CredentialBench.Simulator
