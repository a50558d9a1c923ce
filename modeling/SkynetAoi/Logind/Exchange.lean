import SkynetAoi.Logind.Handshake

/-!
This module contains what comes of the handshake of a login, however the two streams are cut into pieces
and whichever side goes on first.
-/

namespace Logind

theorem length_base64encode (text : Bytes)
    : (Crypt.base64encode text).length = 4 * ((text.length + 2) / 3) := by
  induction text using Crypt.base64encode.induct with
  | case1 x y z text ih =>
    rw [Crypt.base64encode]
    simp only [List.length_cons, ih]
    omega
  | case2 => simp [Crypt.base64encode]
  | case3 => simp [Crypt.base64encode]
  | case4 => rfl

theorem newline_not_mem (text : Bytes) : newline ∉ Crypt.base64encode text :=
  not_mem_base64encode (by decide) text

theorem length_desencode {key text cipher : Bytes} {mode : Int64}
    (h : Crypt.desencode key text mode = .ok cipher)
    : cipher.length = 8 * (text.length / 8 + 1) := by
  unfold Crypt.desencode at h
  cases hkey : Crypt.desKey key with
  | error e =>
    rw [hkey] at h
    cases h
  | ok sk =>
    rw [hkey] at h
    obtain ⟨whole, hwhole⟩ := Crypt.exists_whole sk text
    dsimp only at h
    split at h
    . cases h
    . next padded hpadding =>
      rw [Except.ok.injEq] at h
      obtain ⟨hlen, -⟩ := Crypt.removePadding_addPadding hpadding
      have hblock : Crypt.Whole sk padded padded := Crypt.whole_of_length hlen
      have htail := hwhole.tail
      have hblocks := hwhole.blocks
      have hsplit := congrArg List.length hwhole.split
      rw [List.length_append] at hsplit
      rw [← h, List.length_append, hwhole.length, hblock.length, hlen]
      omega

structure Agreed (c : Login.Config) where
  e : Bytes
  e' : Bytes
  secret : Bytes
  hmac : Bytes
  cipher : Bytes
  exchange : Crypt.dhexchange (Crypt.randomkey c.clientkey) = some e
  exchange' : Crypt.dhexchange (Crypt.randomkey c.serverkey) = some e'
  clientSecret : Crypt.dhsecret e' (Crypt.randomkey c.clientkey) = some secret
  slaveSecret : Crypt.dhsecret e (Crypt.randomkey c.serverkey) = some secret
  length : e.length = 8
  length_hmac : hmac.length = 8
  hmac_eq : Crypt.hmac64 (Crypt.randomkey c.challenge) secret = some hmac
  cipher_eq : Crypt.desencode secret (encodeToken c.token) Crypt.paddingModeIso78164.toInt64
    = .ok cipher

theorem exists_agreed (c : Login.Config) : Nonempty (Agreed c) := by
  obtain ⟨e, e', secret, he, he', hsecret, hsecret', hlen, -, hslen, -⟩ :=
    Crypt.dh_agree (Crypt.isKey_randomkey c.clientkey) (Crypt.isKey_randomkey c.serverkey)
  obtain ⟨p, hp, -⟩ := Crypt.read64_spec (x := Crypt.randomkey c.challenge) rfl
  obtain ⟨q, hq, -⟩ := Crypt.read64_spec hslen
  have hhmac : Crypt.hmac64 (Crypt.randomkey c.challenge) secret
      = some (Crypt.pushqword (Crypt.hmac p q)) := by
    rw [Crypt.hmac64, hp, hq]
  obtain ⟨cipher, hcipher⟩ := (Crypt.exists_desencode_iff secret (encodeToken c.token)
    Crypt.paddingModeIso78164.toInt64).mpr ⟨hslen, .inl (by decide)⟩
  exact ⟨{
    e, e', secret, cipher
    hmac := Crypt.pushqword (Crypt.hmac p q)
    exchange := he
    exchange' := he'
    clientSecret := hsecret
    slaveSecret := hsecret'
    length := hlen
    length_hmac := rfl
    hmac_eq := hhmac
    cipher_eq := hcipher
  }⟩

namespace Agreed

variable {c : Login.Config} (a : Agreed c)

theorem readHandshake (text : Bytes)
    : Slave.readHandshake c text (Crypt.base64encode a.e)
        = (.response text a.secret, writeline a.e') := by
  unfold Slave.readHandshake
  simp only [Crypt.base64decode_base64encode, a.length, a.exchange', a.slaveSecret, ne_eq,
    not_true_eq_false, if_false]

theorem readResponse
    : Slave.readResponse (Crypt.randomkey c.challenge) a.secret (Crypt.base64encode a.hmac)
        = .etoken a.secret := by
  unfold Slave.readResponse
  simp only [a.hmac_eq, Crypt.base64decode_base64encode, ne_eq, not_true_eq_false, if_false]

theorem readEtoken
    : Slave.readEtoken c a.secret (Crypt.base64encode a.cipher)
        = .returned (authHandler c.checkuser (encodeToken c.token)) a.secret := by
  unfold Slave.readEtoken
  simp only [Crypt.base64decode_base64encode, Crypt.desdecode_desencode a.cipher_eq]

theorem next_response
    : (fun line => (Slave.readResponse (Crypt.randomkey c.challenge) a.secret line, ([] : Bytes)))
        (Crypt.base64encode a.hmac) = (.etoken a.secret, []) := by
  simp only [a.readResponse]

theorem next_etoken
    : (fun line => (Slave.readEtoken c a.secret line, ([] : Bytes))) (Crypt.base64encode a.cipher)
        = (.returned (authHandler c.checkuser (encodeToken c.token)) a.secret, []) := by
  simp only [a.readEtoken]

theorem readChallenge
    : Client.readChallenge c (Crypt.base64encode (Crypt.randomkey c.challenge))
        = (.exchange (Crypt.randomkey c.challenge), writeline a.e) := by
  unfold Client.readChallenge
  simp only [Crypt.base64decode_base64encode, a.exchange]

theorem readExchange
    : Client.readExchange c (Crypt.randomkey c.challenge) (Crypt.base64encode a.e')
        = (.result a.secret, writeline a.hmac ++ writeline a.cipher) := by
  unfold Client.readExchange
  simp only [Crypt.base64decode_base64encode, a.clientSecret, a.hmac_eq, a.cipher_eq]

/--
How far the handshake is. What one side has read of a line and what is still on its way make up the line.
No read is longer than `minReadBuffer` before the line of the token, so the line in front of it is gone
when the buffer gets long.
-/
inductive Phase : Connection → Prop where
  | challenge {last rest : Bytes} (h : last ++ rest = writeline (Crypt.randomkey c.challenge))
      (hlast : newline ∉ last)
      : Phase ⟨.handshake (Crypt.randomkey c.challenge), [], [], .challenge, last, rest,
          Connection.minReadBuffer, false⟩
  | key {buffer rest : Bytes} (h : buffer ++ rest = writeline a.e) (hbuffer : newline ∉ buffer)
      : Phase ⟨.handshake (Crypt.randomkey c.challenge), buffer, rest,
          .exchange (Crypt.randomkey c.challenge), [], [], Connection.minReadBuffer, false⟩
  | exchange {last rest : Bytes} (h : last ++ rest = writeline a.e') (hlast : newline ∉ last)
      : Phase ⟨.response (Crypt.randomkey c.challenge) a.secret, [], [],
          .exchange (Crypt.randomkey c.challenge), last, rest, Connection.minReadBuffer, false⟩
  | response {buffer rest : Bytes} (h : buffer ++ rest = writeline a.hmac ++ writeline a.cipher)
      (hbuffer : newline ∉ buffer)
      : Phase ⟨.response (Crypt.randomkey c.challenge) a.secret, buffer, rest, .result a.secret, [], [],
          Connection.minReadBuffer, false⟩
  | etoken {buffer rest : Bytes} {size : Nat} (h : buffer ++ rest = writeline a.cipher)
      (hbuffer : newline ∉ buffer)
      : Phase ⟨.etoken a.secret, buffer, rest, .result a.secret, [], [], size, false⟩
  | returned {size : Nat} (h : (writeline a.cipher).length ≤ Connection.limit)
      : Phase ⟨.returned (authHandler c.checkuser (encodeToken c.token)) a.secret, [], [],
          .result a.secret, [], [], size, false⟩
  | closed {w : Connection} (h : Connection.limit < (writeline a.cipher).length)
      (hbuffer : Connection.limit < w.buffer.length)
      (hslave : w.slave = .closed ∨ w.slave = .raised .socket ∧ w.closed = true)
      (hclient : w.client = .result a.secret ∨ w.client = .raised .recv) (hlast : w.last = [])
      (htoClient : w.toClient = [])
      : Phase w

end Agreed

theorem length_writeline (text : Bytes)
    : (writeline text).length = 4 * ((text.length + 2) / 3) + 1 := by
  rw [writeline, List.length_append, length_base64encode]
  rfl

theorem Agreed.length_lines {c : Login.Config} (a : Agreed c)
    : (writeline a.hmac).length = 13
        ∧ (writeline a.cipher).length
          = 4 * ((8 * ((encodeToken c.token).length / 8 + 1) + 2) / 3) + 1 := by
  rw [length_writeline, length_writeline, a.length_hmac, length_desencode a.cipher_eq]
  exact ⟨rfl, rfl⟩

theorem writeline_append (text more : Bytes)
    : writeline text ++ more = Crypt.base64encode text ++ newline :: more := by
  rw [writeline, List.append_assoc]
  rfl

theorem newline_mem_writeline (text : Bytes) : newline ∈ writeline text := by
  simp [writeline]

theorem parts_of_writeline {text more front back : Bytes} (h : front ++ back = writeline text ++ more)
    : newline ∉ front ∨ ∃ rest, front = writeline text ++ rest ∧ rest ++ back = more := by
  rw [writeline_append] at h
  rcases Lines.parts_of_line (newline_not_mem text) h with hfront | ⟨rest, hfront, hrest⟩
  . exact .inl hfront
  . exact .inr ⟨rest, by rw [hfront, writeline_append], hrest⟩

theorem length_lt_of_part {text more front back : Bytes} (h : front ++ back = writeline text ++ more)
    (hfront : newline ∉ front) : front.length < (writeline text).length := by
  by_contra hlong
  have hline : writeline text <+: front :=
    List.prefix_of_prefix_length_le ⟨more, h.symm⟩ ⟨back, rfl⟩ (Nat.not_lt.mp hlong)
  exact hfront (hline.subset (newline_mem_writeline text))

section

variable {σ : Type} {next : σ → Option (Bytes → σ × Bytes)}

theorem feed_part {s : σ} {buffer : Bytes} (h : newline ∉ buffer)
    : Lines.feed [newline] next s buffer = (s, buffer, []) :=
  Lines.feed_of_no_line (Lines.cut_of_not_mem h)

theorem feed_writeline {s s' : σ} {resume : Bytes → σ × Bytes} {text out : Bytes}
    (hnext : next s = some resume) (hresume : resume (Crypt.base64encode text) = (s', out)) (rest : Bytes)
    : Lines.feed [newline] next s (writeline text ++ rest)
        = ((Lines.feed [newline] next s' rest).1, (Lines.feed [newline] next s' rest).2.1,
          out ++ (Lines.feed [newline] next s' rest).2.2) := by
  rw [writeline_append, Lines.feed_of_line (by simp) hnext (Lines.cut_char (newline_not_mem text) rest),
    hresume]

theorem feed_one {s s' : σ} {resume : Bytes → σ × Bytes} {text out : Bytes}
    (hnext : next s = some resume) (hresume : resume (Crypt.base64encode text) = (s', out))
    : Lines.feed [newline] next s (writeline text) = (s', [], out) := by
  have hnil : Lines.feed [newline] next s' [] = (s', [], []) := feed_part (by simp)
  have hline := feed_writeline hnext hresume []
  rwa [List.append_nil, hnil, List.append_nil] at hline

end

namespace Connection

variable {c : Login.Config}

theorem nextSize_of_lt {n : Nat} (h : n < minReadBuffer)
    : nextSize minReadBuffer n = minReadBuffer := by
  unfold nextSize
  rw [if_neg (Nat.ne_of_lt h), if_neg (by omega)]

theorem nextSize_pos {size : Nat} (h : 0 < size) (n : Nat) : 0 < nextSize size n := by
  unfold nextSize minReadBuffer
  split
  . omega
  . split <;> omega

inductive Forwards (c : Login.Config) (w : Connection) : Connection → Prop where
  | overflow {piece rest : Bytes} (h : piece ++ rest = w.toSlave) (hsize : piece.length ≤ w.size)
      (hlen : limit < (w.buffer ++ piece).length)
      : Forwards c w
          { w with
            slave := .closed
            buffer := w.buffer ++ piece
            toSlave := rest
            size := nextSize w.size piece.length
          }
  | read {piece rest : Bytes} (h : piece ++ rest = w.toSlave) (hsize : piece.length ≤ w.size)
      (hlen : (w.buffer ++ piece).length ≤ limit) {slave : Slave} {left out : Bytes}
      (hfeed : Lines.feed [newline] (Slave.next c) w.slave (w.buffer ++ piece) = (slave, left, out))
      : Forwards c w
          { w with
            slave := slave
            buffer := left
            toSlave := rest
            toClient := w.toClient ++ out
            size := nextSize w.size piece.length
          }

theorem forward_cases (n : Nat) (w : Connection)
    : forward c n w = w
        ∨ (w.slave.abandoned = true ∧ ∃ toSlave size,
          forward c n w = { w with toSlave := toSlave, size := size })
        ∨ Forwards c w (forward c n w) := by
  unfold forward
  dsimp only
  split
  . exact .inl rfl
  . next hread =>
    right
    rw [not_or] at hread
    unfold arrive
    dsimp only
    have hparts := List.take_append_drop (min n w.size) w.toSlave
    have hsize : (w.toSlave.take (min n w.size)).length ≤ w.size := by
      rw [List.length_take]
      omega
    split
    . next h => exact .inl ⟨h.resolve_left hread.1, _, _, rfl⟩
    . right
      split
      . next hlen => exact .overflow hparts hsize hlen
      . next hlen => exact .read hparts hsize (by omega) rfl

theorem forward_nothing {n : Nat} {w : Connection} (h : w.toSlave = []) : forward c n w = w := by
  unfold forward
  rw [h, List.take_nil]
  exact if_pos (.inl rfl)

theorem recv_eq {n : Nat} {w : Connection} (hclosed : w.closed = false)
    : ∃ last rest client left out, last ++ rest = w.last ++ w.toClient
        ∧ Lines.feed [newline] (Client.next c) w.client last = (client, left, out)
        ∧ recv c n w
          = { w with client := client, last := left, toClient := rest, toSlave := w.toSlave ++ out } := by
  unfold recv
  rw [if_neg (by simp [hclosed])]
  refine ⟨w.last ++ w.toClient.take (min n cacheSize), w.toClient.drop (min n cacheSize), _, _, _, ?_,
    rfl, rfl⟩
  rw [List.append_assoc, List.take_append_drop]

theorem recv_of_nothing {n : Nat} {w : Connection} (hlast : w.last = []) (htoClient : w.toClient = [])
    : recv c n w = w ∨ recv c n w = { w with client := .raised .recv } ∧ w.closed = true := by
  obtain ⟨slave, buffer, toSlave, client, last, toClient, size, closed⟩ := w
  dsimp only at hlast htoClient
  subst hlast htoClient
  unfold recv
  split
  . next h => exact .inr ⟨rfl, h.2.1⟩
  . left
    dsimp only
    rw [List.take_nil, List.drop_nil, List.append_nil, feed_part (by simp)]
    dsimp only
    rw [List.append_nil]

theorem recv_nothing {n : Nat} {w : Connection} (hlast : w.last = []) (htoClient : w.toClient = [])
    (hclosed : w.closed = false) : recv c n w = w := by
  apply (recv_of_nothing hlast htoClient).resolve_right
  rintro ⟨-, h⟩
  rw [hclosed] at h
  cases h

end Connection

namespace Agreed

variable {c : Login.Config} {a : Agreed c} {w w' : Connection}

theorem Phase.of_etoken {buffer rest left out : Bytes} {slave : Slave} {size : Nat}
    (hparts : buffer ++ rest = writeline a.cipher) (hlen : buffer.length ≤ Connection.limit)
    (hfeed : Lines.feed [newline] (Slave.next c) (.etoken a.secret) buffer = (slave, left, out))
    : a.Phase ⟨slave, left, rest, .result a.secret, [], out, size, false⟩ := by
  rw [← List.append_nil (writeline a.cipher)] at hparts
  rcases parts_of_writeline hparts with hpart | ⟨rest', rfl, hnil⟩
  . rw [feed_part hpart, Prod.mk.injEq, Prod.mk.injEq] at hfeed
    obtain ⟨rfl, rfl, rfl⟩ := hfeed
    exact .etoken (by rw [hparts, List.append_nil]) hpart
  . rw [List.append_eq_nil_iff] at hnil
    obtain ⟨rfl, rfl⟩ := hnil
    rw [List.append_nil] at hlen
    rw [List.append_nil, feed_one rfl a.next_etoken, Prod.mk.injEq, Prod.mk.injEq] at hfeed
    obtain ⟨rfl, rfl, rfl⟩ := hfeed
    exact .returned hlen

theorem Phase.forwards (h : a.Phase w) (hforwards : Connection.Forwards c w w')
    (hwaits : w.toSlave ≠ []) : a.Phase w' := by
  cases h with
  | challenge => exact absurd rfl hwaits
  | @key buffer rest h hbuffer =>
    have hlength := congrArg List.length h
    rw [List.length_append, length_writeline, a.length] at hlength
    cases hforwards with
    | @overflow piece rest' hparts _ hlen =>
      have hrest := congrArg List.length hparts
      rw [List.length_append] at hlen hrest
      unfold Connection.limit at hlen
      dsimp only at hlen hrest
      omega
    | @read piece rest' hparts _ _ slave left out hfeed =>
      have hrest := congrArg List.length hparts
      rw [List.length_append] at hrest
      dsimp only at hparts hrest hfeed ⊢
      rw [Connection.nextSize_of_lt (by unfold Connection.minReadBuffer; omega)]
      rw [← hparts, ← List.append_assoc, ← List.append_nil (writeline a.e)] at h
      rcases parts_of_writeline h with hpart | ⟨rest', hline, hnil⟩
      . rw [feed_part hpart, Prod.mk.injEq, Prod.mk.injEq] at hfeed
        obtain ⟨rfl, rfl, rfl⟩ := hfeed
        exact .key (by rw [h, List.append_nil]) hpart
      . rw [List.append_eq_nil_iff] at hnil
        obtain ⟨rfl, rfl⟩ := hnil
        rw [hline, List.append_nil, feed_one rfl (a.readHandshake _), Prod.mk.injEq, Prod.mk.injEq]
          at hfeed
        obtain ⟨rfl, rfl, rfl⟩ := hfeed
        exact .exchange (by simp) (by simp)
  | exchange => exact absurd rfl hwaits
  | @response buffer rest h hbuffer =>
    obtain ⟨hhmac, -⟩ := a.length_lines
    have hshort := length_lt_of_part h hbuffer
    cases hforwards with
    | @overflow piece rest' _ hsize hlen =>
      rw [List.length_append] at hlen
      unfold Connection.limit at hlen
      unfold Connection.minReadBuffer at hsize
      dsimp only at hlen hsize
      omega
    | @read piece rest' hparts _ hlen slave left out hfeed =>
      dsimp only at hparts hlen hfeed ⊢
      rw [← hparts, ← List.append_assoc] at h
      rcases parts_of_writeline h with hpart | ⟨buffer', hline, hrest⟩
      . have hpart' := length_lt_of_part h hpart
        rw [List.length_append] at hpart'
        rw [Connection.nextSize_of_lt (by unfold Connection.minReadBuffer; omega)]
        rw [feed_part hpart, Prod.mk.injEq, Prod.mk.injEq] at hfeed
        obtain ⟨rfl, rfl, rfl⟩ := hfeed
        exact .response h hpart
      . rw [hline, feed_writeline rfl a.next_response] at hfeed
        simp only [Prod.mk.injEq, List.nil_append] at hfeed
        obtain ⟨rfl, rfl, rfl⟩ := hfeed
        rw [hline, List.length_append] at hlen
        exact Phase.of_etoken hrest (by omega) rfl
  | @etoken buffer rest size h hbuffer =>
    cases hforwards with
    | @overflow piece rest' hparts _ hlen =>
      dsimp only at hparts hlen
      rw [← hparts, ← List.append_assoc] at h
      have hlength := congrArg List.length h
      rw [List.length_append] at hlength
      exact .closed (by omega) hlen (.inl rfl) (.inl rfl) rfl rfl
    | @read piece rest' hparts _ hlen slave left out hfeed =>
      dsimp only at hparts
      rw [← hparts, ← List.append_assoc] at h
      exact Phase.of_etoken h hlen hfeed
  | returned h => exact absurd rfl hwaits
  | closed h hbuffer hslave hclient hlast htoClient =>
    cases hforwards with
    | overflow _ _ hlen => exact .closed h hlen (.inl rfl) hclient hlast htoClient
    | read _ _ hlen =>
      rw [List.length_append] at hlen
      omega

theorem Phase.forward (h : a.Phase w) (n : Nat) : a.Phase (w.forward c n) := by
  by_cases hnothing : w.toSlave = []
  . rwa [Connection.forward_nothing hnothing]
  rcases Connection.forward_cases (c := c) n w with hsame | ⟨habandoned, toSlave, size, hdrop⟩ | hforwards
  . rwa [hsame]
  . rw [hdrop]
    cases h with
    | returned => exact absurd rfl hnothing
    | closed h hbuffer hslave hclient hlast htoClient => exact .closed h hbuffer hslave hclient hlast htoClient
    | _ => cases habandoned
  . exact h.forwards hforwards hnothing

theorem Phase.recv (h : a.Phase w) (n : Nat) : a.Phase (w.recv c n) := by
  cases h with
  | @challenge last rest h hlast =>
    obtain ⟨last', rest', client, left, out, hparts, hfeed, hrecv⟩ := Connection.recv_eq (c := c) (n := n)
      (w := ⟨.handshake (Crypt.randomkey c.challenge), [], [], .challenge, last, rest,
          Connection.minReadBuffer, false⟩) rfl
    rw [hrecv]
    dsimp only at hparts hfeed ⊢
    rw [h, ← List.append_nil (writeline _)] at hparts
    rcases parts_of_writeline hparts with hpart | ⟨rest₂, rfl, hnil⟩
    . rw [feed_part hpart, Prod.mk.injEq, Prod.mk.injEq] at hfeed
      obtain ⟨rfl, rfl, rfl⟩ := hfeed
      exact .challenge (by rw [hparts, List.append_nil]) hpart
    . rw [List.append_eq_nil_iff] at hnil
      obtain ⟨rfl, rfl⟩ := hnil
      rw [List.append_nil, feed_one rfl a.readChallenge, Prod.mk.injEq, Prod.mk.injEq] at hfeed
      obtain ⟨rfl, rfl, rfl⟩ := hfeed
      exact .key (by simp) (by simp)
  | key h hbuffer =>
    rw [Connection.recv_nothing rfl rfl rfl]
    exact .key h hbuffer
  | @exchange last rest h hlast =>
    obtain ⟨last', rest', client, left, out, hparts, hfeed, hrecv⟩ := Connection.recv_eq (c := c) (n := n)
      (w := ⟨.response (Crypt.randomkey c.challenge) a.secret, [], [],
          .exchange (Crypt.randomkey c.challenge), last, rest, Connection.minReadBuffer, false⟩) rfl
    rw [hrecv]
    dsimp only at hparts hfeed ⊢
    rw [h, ← List.append_nil (writeline _)] at hparts
    rcases parts_of_writeline hparts with hpart | ⟨rest₂, rfl, hnil⟩
    . rw [feed_part hpart, Prod.mk.injEq, Prod.mk.injEq] at hfeed
      obtain ⟨rfl, rfl, rfl⟩ := hfeed
      exact .exchange (by rw [hparts, List.append_nil]) hpart
    . rw [List.append_eq_nil_iff] at hnil
      obtain ⟨rfl, rfl⟩ := hnil
      rw [List.append_nil, feed_one rfl a.readExchange, Prod.mk.injEq, Prod.mk.injEq] at hfeed
      obtain ⟨rfl, rfl, rfl⟩ := hfeed
      exact .response (by simp) (by simp)
  | response h hbuffer =>
    rw [Connection.recv_nothing rfl rfl rfl]
    exact .response h hbuffer
  | etoken h hbuffer =>
    rw [Connection.recv_nothing rfl rfl rfl]
    exact .etoken h hbuffer
  | returned h =>
    rw [Connection.recv_nothing rfl rfl rfl]
    exact .returned h
  | closed h hbuffer hslave hclient hlast htoClient =>
    rcases Connection.recv_of_nothing (c := c) (n := n) hlast htoClient with hsame | ⟨hraised, -⟩
    . rw [hsame]
      exact .closed h hbuffer hslave hclient hlast htoClient
    . rw [hraised]
      exact .closed h hbuffer hslave (.inr rfl) hlast htoClient

theorem Phase.close (h : a.Phase w) : a.Phase w.close := by
  unfold Connection.close
  split
  . next hslave =>
    cases h with
    | closed h hbuffer _ hclient hlast htoClient =>
      exact .closed h hbuffer (.inl hslave) hclient hlast htoClient
    | _ => cases hslave
  . exact h

theorem Phase.closeMessage (h : a.Phase w) : a.Phase w.closeMessage := by
  unfold Connection.closeMessage
  split
  . next hclosed =>
    cases h with
    | closed h hbuffer _ hclient hlast htoClient =>
      exact .closed h hbuffer (.inr ⟨rfl, hclosed.1⟩) hclient hlast htoClient
    | _ => cases hclosed.1
  . exact h

theorem Phase.step (h : a.Phase w) (event : Connection.Event) : a.Phase (Connection.step c w event) := by
  cases event with
  | forward n => exact h.forward n
  | recv n => exact h.recv n
  | close => exact h.close
  | closeMessage => exact h.closeMessage

theorem Phase.foldl (h : a.Phase w) (events : List Connection.Event)
    : a.Phase (events.foldl (Connection.step c) w) := by
  induction events generalizing w with
  | nil => exact h
  | cons event events ih => exact ih (h.step event)

theorem phase_after (a : Agreed c) (events : List Connection.Event)
    : a.Phase (Connection.after c events) :=
  Phase.foldl (.challenge (List.nil_append _) (by simp)) events

end Agreed

namespace Connection

variable {c : Login.Config}

theorem drains_toSlave (n : Nat) {w : Connection} (hn : w.toSlave.length = n) (hsize : 0 < w.size)
    (hclosed : w.closed = false)
    : ∃ events : List Event, let w' := events.foldl (step c) w
      w'.toSlave = [] ∧ w'.client = w.client ∧ w'.closed = false ∧ 0 < w'.size := by
  induction n generalizing w with
  | zero => exact ⟨[], List.eq_nil_of_length_eq_zero hn, rfl, hclosed, hsize⟩
  | succ n ih =>
    have hread : ¬ (w.toSlave.take (min 1 w.size) = [] ∨ w.closed = true) := by
      rw [hclosed, Nat.min_eq_left hsize, List.take_eq_nil_iff]
      rintro ((h | h) | h)
      . cases h
      . rw [h] at hn
        cases hn
      . cases h
    have hone : (forward c 1 w).toSlave = w.toSlave.drop 1 ∧ (forward c 1 w).client = w.client
        ∧ (forward c 1 w).closed = false ∧ 0 < (forward c 1 w).size := by
      unfold forward
      rw [if_neg hread, Nat.min_eq_left hsize]
      refine ⟨?_, ?_, ?_, nextSize_pos hsize _⟩
      all_goals
        unfold arrive
        dsimp only
        split
        . first | rfl | exact hclosed
        . split
          all_goals first | rfl | exact hclosed
    obtain ⟨htoSlave, hclient, hclosed', hsize'⟩ := hone
    have hlength : (forward c 1 w).toSlave.length = n := by
      rw [htoSlave, List.length_drop, hn]
      rfl
    obtain ⟨events, hnil, hclient', hrest⟩ := ih hlength hsize' hclosed'
    exact ⟨.forward 1 :: events, hnil, hclient'.trans hclient, hrest⟩

theorem drains_toClient (n : Nat) {w : Connection} (hn : w.toClient.length = n) (hsize : 0 < w.size)
    (hclosed : w.closed = false)
    : ∃ events : List Event, let w' := events.foldl (step c) w
      w'.toClient = [] ∧ w'.slave = w.slave ∧ w'.closed = false ∧ 0 < w'.size := by
  induction n generalizing w with
  | zero => exact ⟨[], List.eq_nil_of_length_eq_zero hn, rfl, hclosed, hsize⟩
  | succ n ih =>
    have hone : (recv c 1 w).toClient = w.toClient.drop 1 ∧ (recv c 1 w).slave = w.slave
        ∧ (recv c 1 w).closed = false ∧ 0 < (recv c 1 w).size := by
      unfold recv
      rw [if_neg (by simp [hclosed])]
      exact ⟨rfl, rfl, hclosed, hsize⟩
    obtain ⟨htoClient, hslave, hclosed', hsize'⟩ := hone
    have hlength : (recv c 1 w).toClient.length = n := by
      rw [htoClient, List.length_drop, hn]
      rfl
    obtain ⟨events, hnil, hslave', hrest⟩ := ih hlength hsize' hclosed'
    exact ⟨.recv 1 :: events, hnil, hslave'.trans hslave, hrest⟩

end Connection

namespace Agreed

variable {c : Login.Config} {a : Agreed c} {w : Connection}

theorem Phase.ends_of_result (h : a.Phase w) (hclient : w.client = .result a.secret) (hsize : 0 < w.size)
    (hclosed : w.closed = false)
    : ∃ events : List Connection.Event, let w' := events.foldl (Connection.step c) w
      w'.slave = .closed ∨ ∃ user, w'.slave = .returned user a.secret := by
  obtain ⟨events, hnil, hclient', hclosed', -⟩ :=
    Connection.drains_toSlave (c := c) _ (rfl : w.toSlave.length = _) hsize hclosed
  have hphase := h.foldl events
  refine ⟨events, ?_⟩
  generalize events.foldl (Connection.step c) w = w' at hphase hnil hclient' hclosed'
  dsimp only at hnil hclient' hclosed' ⊢
  rw [hclient] at hclient'
  cases hphase with
  | challenge => cases hclient'
  | key => cases hclient'
  | exchange => cases hclient'
  | response h hbuffer =>
    dsimp only at hnil
    rw [hnil, List.append_nil] at h
    exact absurd (h ▸ List.mem_append_left _ (newline_mem_writeline _)) hbuffer
  | etoken h hbuffer =>
    dsimp only at hnil
    rw [hnil, List.append_nil] at h
    exact absurd (h ▸ newline_mem_writeline _) hbuffer
  | returned => exact .inr ⟨_, rfl⟩
  | closed _ _ hslave =>
    apply hslave.imp id
    rintro ⟨-, htrue⟩
    rw [hclosed'] at htrue
    cases htrue

theorem Phase.ends_of_response (h : a.Phase w)
    (hslave : w.slave = .response (Crypt.randomkey c.challenge) a.secret) (hsize : 0 < w.size)
    (hclosed : w.closed = false)
    : ∃ events : List Connection.Event, let w' := events.foldl (Connection.step c) w
      w'.slave = .closed ∨ ∃ user, w'.slave = .returned user a.secret := by
  obtain ⟨events, hnil, hslave', hclosed', hsize'⟩ :=
    Connection.drains_toClient (c := c) _ (rfl : w.toClient.length = _) hsize hclosed
  have hphase := h.foldl events
  have hclient : (events.foldl (Connection.step c) w).client = .result a.secret := by
    generalize events.foldl (Connection.step c) w = w' at hphase hnil hslave'
    rw [hslave] at hslave'
    cases hphase with
    | exchange h hlast =>
      dsimp only at hnil
      rw [hnil, List.append_nil] at h
      exact absurd (h ▸ newline_mem_writeline _) hlast
    | response => rfl
    | closed _ _ hend =>
      rw [hslave'] at hend
      simp at hend
    | _ => cases hslave'
  obtain ⟨events', hend⟩ := hphase.ends_of_result hclient hsize' hclosed'
  exact ⟨events ++ events', by rwa [List.foldl_append]⟩

theorem Phase.ends_of_exchange (h : a.Phase w)
    (hclient : w.client = .exchange (Crypt.randomkey c.challenge)) (hsize : 0 < w.size)
    (hclosed : w.closed = false)
    : ∃ events : List Connection.Event, let w' := events.foldl (Connection.step c) w
      w'.slave = .closed ∨ ∃ user, w'.slave = .returned user a.secret := by
  obtain ⟨events, hnil, hclient', hclosed', hsize'⟩ :=
    Connection.drains_toSlave (c := c) _ (rfl : w.toSlave.length = _) hsize hclosed
  have hphase := h.foldl events
  have hslave : (events.foldl (Connection.step c) w).slave
      = .response (Crypt.randomkey c.challenge) a.secret := by
    generalize events.foldl (Connection.step c) w = w' at hphase hnil hclient'
    rw [hclient] at hclient'
    cases hphase with
    | key h hbuffer =>
      dsimp only at hnil
      rw [hnil, List.append_nil] at h
      exact absurd (h ▸ newline_mem_writeline _) hbuffer
    | exchange => rfl
    | closed _ _ _ hend =>
      rw [hclient'] at hend
      simp at hend
    | _ => cases hclient'
  obtain ⟨events', hend⟩ := hphase.ends_of_response hslave hsize' hclosed'
  exact ⟨events ++ events', by rwa [List.foldl_append]⟩

theorem reaches_end (a : Agreed c)
    : ∃ events, (Connection.after c events).slave = .closed
        ∨ ∃ user, (Connection.after c events).slave = .returned user a.secret := by
  have hsize : 0 < (Connection.init c).size := by simp [Connection.init, Connection.minReadBuffer]
  obtain ⟨events, hnil, hslave, hclosed, hsize'⟩ :=
    Connection.drains_toClient (c := c) _ (rfl : (Connection.init c).toClient.length = _) hsize rfl
  have hphase := a.phase_after events
  have hclient : (Connection.after c events).client = .exchange (Crypt.randomkey c.challenge) := by
    unfold Connection.after at hphase ⊢
    generalize events.foldl (Connection.step c) (Connection.init c) = w at hphase hnil hslave
    cases hphase with
    | challenge h hlast =>
      dsimp only at hnil
      rw [hnil, List.append_nil] at h
      exact absurd (h ▸ newline_mem_writeline _) hlast
    | key => rfl
    | closed _ _ hend =>
      rw [hslave] at hend
      simp [Connection.init] at hend
    | _ => cases hslave
  obtain ⟨events', hend⟩ := hphase.ends_of_exchange hclient hsize' hclosed
  exact ⟨events ++ events', by rwa [Connection.after, List.foldl_append]⟩

end Agreed

theorem Connection.login_agrees (c : Login.Config) (events : List Connection.Event)
    : ∃ secret, let w := Connection.after c events
      (∀ e, w.slave = .raised e → e = .socket ∧ limit < w.buffer.length)
        ∧ (∀ e, w.client = .raised e → e = .recv ∧ limit < w.buffer.length)
        ∧ (∀ user secret', w.slave = .returned user secret' →
          secret' = secret ∧ w.client = .result secret
            ∧ user = if c.token.user = [] ∨ c.token.server = [] ∨ c.token.pass = [] then
                none
              else if c.checkuser c.token.server c.token.user c.token.pass then
                some (c.token.server, c.token.user)
              else
                none)
        ∧ (w.toSlave = [] → w.toClient = [] →
          limit < w.buffer.length ∨ ∃ user, w.slave = .returned user secret) := by
  obtain ⟨a⟩ := exists_agreed c
  refine ⟨a.secret, ?_⟩
  have hphase := a.phase_after events
  generalize Connection.after c events = w at hphase
  dsimp only
  rw [← authHandler_encodeToken]
  cases hphase with
  | challenge h hlast =>
    refine ⟨by simp, by simp, by simp, ?_⟩
    rintro - rfl
    rw [List.append_nil] at h
    exact absurd (h ▸ newline_mem_writeline _) hlast
  | key h hbuffer =>
    refine ⟨by simp, by simp, by simp, ?_⟩
    rintro rfl -
    rw [List.append_nil] at h
    exact absurd (h ▸ newline_mem_writeline _) hbuffer
  | exchange h hlast =>
    refine ⟨by simp, by simp, by simp, ?_⟩
    rintro - rfl
    rw [List.append_nil] at h
    exact absurd (h ▸ newline_mem_writeline _) hlast
  | response h hbuffer =>
    refine ⟨by simp, by simp, by simp, ?_⟩
    rintro rfl -
    rw [List.append_nil] at h
    exact absurd (h ▸ List.mem_append_left _ (newline_mem_writeline _)) hbuffer
  | etoken h hbuffer =>
    refine ⟨by simp, by simp, by simp, ?_⟩
    rintro rfl -
    rw [List.append_nil] at h
    exact absurd (h ▸ newline_mem_writeline _) hbuffer
  | returned => exact ⟨by simp, by simp, by simp, by simp⟩
  | closed _ hbuffer hslave hclient =>
    refine ⟨?_, ?_, ?_, fun _ _ => .inl hbuffer⟩
    . intro e he
      rw [he] at hslave
      simp only [reduceCtorEq, Slave.raised.injEq, false_or] at hslave
      exact ⟨hslave.1, hbuffer⟩
    . intro e he
      rw [he] at hclient
      simp only [reduceCtorEq, Client.raised.injEq, false_or] at hclient
      exact ⟨hclient, hbuffer⟩
    . intro user secret' hreturned
      rw [hreturned] at hslave
      simp at hslave

/--
A token of 6136 bytes or more makes the buffer too long however its line comes in, since the line in
front of it is gone by then. A shorter one never does.
-/
theorem Connection.login_limit_iff (c : Login.Config)
    : ((∃ events, (Connection.after c events).slave = .closed) ↔ 6136 ≤ (encodeToken c.token).length)
        ∧ ((∃ events user secret, (Connection.after c events).slave = .returned user secret)
          ↔ (encodeToken c.token).length < 6136) := by
  obtain ⟨a⟩ := exists_agreed c
  obtain ⟨-, hcipher⟩ := a.length_lines
  have hclosed : ∀ events, (Connection.after c events).slave = .closed →
      6136 ≤ (encodeToken c.token).length := by
    intro events hslave
    have hphase := a.phase_after events
    generalize Connection.after c events = w at hphase hslave
    cases hphase with
    | closed h =>
      unfold Connection.limit at h
      omega
    | _ => cases hslave
  have hreturned : ∀ events user secret, (Connection.after c events).slave = .returned user secret →
      (encodeToken c.token).length < 6136 := by
    intro events user secret hslave
    have hphase := a.phase_after events
    generalize Connection.after c events = w at hphase hslave
    cases hphase with
    | returned h =>
      unfold Connection.limit at h
      omega
    | closed _ _ hend =>
      rw [hslave] at hend
      simp at hend
    | _ => cases hslave
  obtain ⟨events, hend⟩ := a.reaches_end
  constructor
  . constructor
    . rintro ⟨events, h⟩
      exact hclosed events h
    . intro h
      rcases hend with hend | ⟨user, hend⟩
      . exact ⟨events, hend⟩
      . exact absurd (hreturned events user a.secret hend) (Nat.not_lt.mpr h)
  . constructor
    . rintro ⟨events, user, secret, h⟩
      exact hreturned events user secret h
    . intro h
      rcases hend with hend | ⟨user, hend⟩
      . exact absurd (hclosed events hend) (Nat.not_le.mpr h)
      . exact ⟨events, user, a.secret, hend⟩

/--
The slave has read a part of the stream, and is where this part as one piece leads to.
-/
def Connection.HasRead (c : Login.Config) (start w : Connection) : Prop :=
  ∃ received left out, received ++ w.toSlave = start.toSlave
    ∧ Lines.feed [newline] (Slave.next c) start.slave received = (w.slave, left, out)
    ∧ (w.slave.next c = none ∨ w.buffer = left) ∧ w.toClient = start.toClient ++ out

theorem Slave.next_eq_none {c : Login.Config} {s : Slave} (h : s ≠ .closed)
    : s.next c = none ↔ s.abandoned = true := by
  cases s <;> simp [Slave.next, Slave.abandoned] at h ⊢

theorem Connection.arrive_closed {c : Login.Config} {w : Connection} (h : w.slave = .closed) (n : Nat)
    : (w.arrive c n).slave = .closed := by
  unfold Connection.arrive
  dsimp only
  split
  . exact h
  . split
    . rfl
    . rw [h, Lines.feed_of_not_waiting rfl]

theorem Connection.HasRead.arrive {c : Login.Config} {start w : Connection} (h : HasRead c start w)
    (n : Nat) : (w.arrive c n).slave = .closed ∨ HasRead c start (w.arrive c n) := by
  by_cases hclosed : w.slave = .closed
  . exact .inl (arrive_closed hclosed n)
  obtain ⟨received, left, out, hparts, hfeed, hbuffer, hout⟩ := h
  have hstream : (received ++ w.toSlave.take n) ++ w.toSlave.drop n = start.toSlave := by
    rw [List.append_assoc, List.take_append_drop, hparts]
  have hmore : Lines.feed [newline] (Slave.next c) start.slave (received ++ w.toSlave.take n) = _ :=
    Lines.feed_append (List.cons_ne_nil newline []) _ _ _
  rw [hfeed] at hmore
  dsimp only at hmore
  unfold Connection.arrive
  dsimp only
  split
  . next hcases =>
    right
    by_cases hnext : w.slave.next c = none
    . rw [Lines.feed_of_not_waiting hnext, List.append_nil] at hmore
      exact ⟨_, _, _, hstream, hmore, .inl hnext, hout⟩
    . have hpiece := hcases.resolve_right fun h => hnext ((Slave.next_eq_none hclosed).mpr h)
      rw [hpiece, List.append_nil] at hstream
      exact ⟨_, _, _, hstream, hfeed, hbuffer, hout⟩
  . next hcases =>
    have hnext : w.slave.next c ≠ none :=
      fun hnone => hcases (.inr ((Slave.next_eq_none hclosed).mp hnone))
    rw [← hbuffer.resolve_left hnext] at hmore
    split
    . exact .inl rfl
    . right
      exact ⟨_, _, _, hstream, hmore, .inr rfl, by rw [hout, List.append_assoc]⟩

theorem Connection.pieces_agree (c : Login.Config) (slave : Slave) (client : Client)
    (toSlave last toClient : Bytes) (size : Nat) (closed : Bool) (pieces : List Nat)
    : let start : Connection := ⟨slave, [], toSlave, client, last, toClient, size, closed⟩
      let w := pieces.foldl (fun w n => w.arrive c n) start
      w.slave = .closed ∨ HasRead c start w := by
  intro start
  have hstep : ∀ (pieces : List Nat) (w : Connection), w.slave = .closed ∨ HasRead c start w
      → (pieces.foldl (fun w n => w.arrive c n) w).slave = .closed
        ∨ HasRead c start (pieces.foldl (fun w n => w.arrive c n) w) := by
    intro pieces
    induction pieces with
    | nil => exact fun w h => h
    | cons n pieces ih =>
      intro w h
      apply ih
      rcases h with h | h
      . exact .inl (arrive_closed h n)
      . exact h.arrive n
  exact hstep pieces start (.inr ⟨[], [], [], List.nil_append _, feed_part (by simp), .inr rfl,
    (List.append_nil _).symm⟩)

end Logind
