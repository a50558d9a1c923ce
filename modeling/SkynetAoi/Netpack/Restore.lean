import Mathlib.Data.List.Induction
import SkynetAoi.Gate.Utils
import SkynetAoi.Netpack.Basic

/-!
This module contains that the packets of the gate come out of `netpack` as they went in, however the
streams of the sockets are cut and mixed. The record of a socket is what came after its last packet.
-/

namespace Netpack

open Frame (Incomplete encode)

theorem readSize_eq (hi lo : UInt8) : readSize hi lo = Frame.size hi lo := by
  unfold readSize Frame.size
  rw [Nat.shiftLeft_eq, Nat.mul_comm, ← Nat.two_pow_add_eq_or_of_lt (by simpa using lo.toNat_lt)]

theorem exists_payload {hi lo : UInt8} {buffer : Bytes} (h : ¬buffer.length < readSize hi lo)
    : ∃ p : Payload, p.body = buffer.take (readSize hi lo)
        ∧ hi :: lo :: buffer = Frame.ofPayload p ++ buffer.drop (readSize hi lo) := by
  have hlength : (buffer.take (readSize hi lo)).length = Frame.size hi lo := by
    rw [List.length_take, readSize_eq]
    rw [readSize_eq] at h
    omega
  refine ⟨⟨buffer.take (readSize hi lo), by rw [hlength]; exact Frame.size_lt hi lo⟩, rfl, ?_⟩
  rw [Frame.ofPayload_append hlength, List.take_append_drop]

namespace Uncomplete

def bytes (uc : Uncomplete) : Bytes :=
  match uc with
  | .header _ byte => [byte]
  | .body _ size buffer => Frame.writeSize size ++ buffer

def Valid (uc : Uncomplete) : Prop :=
  match uc with
  | .header _ _ => True
  | .body _ size buffer => size < 0x10000 ∧ buffer.length < size

theorem Valid.incomplete {uc : Uncomplete} (h : uc.Valid) : Incomplete uc.bytes := by
  intro hi lo body heq
  cases uc with
  | header id header => simp [bytes] at heq
  | body id size buffer =>
    simp only [bytes, Frame.writeSize, List.cons_append, List.nil_append, List.cons.injEq] at heq
    rw [← heq.1, ← heq.2.1, ← heq.2.2, Frame.size_writeSize h.1]
    exact h.2

end Uncomplete

namespace Queue

variable {q q' : Queue} {fd : UInt32}

def lookup (q : Queue) (fd : UInt32) : Option Uncomplete :=
  (q.hash (hashFd fd)).find? (·.id = fd)

def pending (q : Queue) (fd : UInt32) : Bytes :=
  match q.lookup fd with
  | none => []
  | some uc => uc.bytes

structure WF (q : Queue) : Prop where
  ring : q.ring.WF
  nodup : ∀ h, ((q.hash h).map Uncomplete.id).Nodup
  chain : ∀ h, ∀ uc ∈ q.hash h, hashFd uc.id = h
  valid : ∀ h, ∀ uc ∈ q.hash h, uc.Valid

theorem wf_new : (getQueue none).WF where
  ring := RingBuffer.wf_empty (by decide)
  nodup := by simp [getQueue]
  chain := by simp [getQueue]
  valid := by simp [getQueue]

theorem lookup_new (fd : UInt32) : (getQueue none).lookup fd = none := rfl

theorem WF.incomplete (h : q.WF) (fd : UInt32) : Incomplete (q.pending fd) := by
  unfold pending
  split
  . intro hi lo body heq
    simp at heq
  . next uc huc =>
    have hmem := List.mem_of_find?_eq_some huc
    exact (h.valid _ uc hmem).incomplete

theorem pending_eq_nil (hnone : q.lookup fd = none) : q.pending fd = [] := by
  simp [pending, hnone]

theorem pending_of_lookup {uc : Uncomplete} (h : q.lookup fd = some uc) : q.pending fd = uc.bytes := by
  simp [pending, h]

theorem pending_congr (h : q'.lookup fd = q.lookup fd) : q'.pending fd = q.pending fd := by
  simp [pending, h]

theorem lookup_saveUncomplete (uc : Uncomplete) (q : Queue) (fd : UInt32)
    : (saveUncomplete uc q).lookup fd = if uc.id = fd then some uc else q.lookup fd := by
  unfold lookup saveUncomplete
  dsimp only
  rw [Function.update_apply]
  split
  . next heq =>
    rw [List.find?_cons, heq]
    by_cases hid : uc.id = fd
    . simp [hid]
    . simp [hid]
  . next hne =>
    rw [if_neg]
    rintro rfl
    exact hne rfl

theorem WF.saveUncomplete (h : q.WF) {uc : Uncomplete} (hvalid : uc.Valid)
    (hnone : q.lookup uc.id = none) : (saveUncomplete uc q).WF := by
  have hmem : ∀ h uc', uc' ∈ (Netpack.saveUncomplete uc q).hash h →
      (uc' = uc ∧ hashFd uc.id = h) ∨ uc' ∈ q.hash h := by
    intro h uc' hmem
    simp only [Netpack.saveUncomplete, Function.update_apply] at hmem
    split at hmem
    . next heq =>
      rw [List.mem_cons] at hmem
      rcases hmem with rfl | hmem
      . exact .inl ⟨rfl, heq.symm⟩
      . exact .inr (heq ▸ hmem)
    . exact .inr hmem
  refine ⟨h.ring, ?_, ?_, ?_⟩
  . intro k
    simp only [Netpack.saveUncomplete, Function.update_apply]
    split
    . rw [List.map_cons, List.nodup_cons]
      refine ⟨?_, h.nodup _⟩
      rw [List.mem_map]
      rintro ⟨uc', huc', hid⟩
      rw [lookup, List.find?_eq_none] at hnone
      simpa [hid] using hnone uc' huc'
    . exact h.nodup k
  . intro k uc' huc'
    rcases hmem k uc' huc' with ⟨rfl, hk⟩ | huc'
    . exact hk
    . exact h.chain k uc' huc'
  . intro k uc' huc'
    rcases hmem k uc' huc' with ⟨rfl, -⟩ | huc'
    . exact hvalid
    . exact h.valid k uc' huc'

theorem find?_eraseP {l : List Uncomplete} (hnodup : (l.map Uncomplete.id).Nodup) (fd fd' : UInt32)
    : (l.eraseP (·.id = fd)).find? (·.id = fd')
        = if fd' = fd then none else l.find? (·.id = fd') := by
  induction l with
  | nil => simp
  | cons uc l ih =>
    rw [List.map_cons, List.nodup_cons] at hnodup
    by_cases huc : uc.id = fd
    . rw [List.eraseP_cons_of_pos (by simpa using huc)]
      split
      . next heq =>
        rw [List.find?_eq_none]
        intro uc' huc'
        have hne : uc'.id ≠ uc.id := by
          intro hid
          exact hnodup.1 (hid ▸ List.mem_map_of_mem huc')
        simpa [heq, ← huc] using hne
      . next hne => simp [huc, Ne.symm hne]
    . rw [List.eraseP_cons_of_neg (by simpa using huc), List.find?_cons, List.find?_cons,
        ih hnodup.2]
      by_cases hid : uc.id = fd'
      . have hne : fd' ≠ fd := fun heq => huc (hid.trans heq)
        simp [hid, hne]
      . simp [hid]

theorem findUncomplete_none (h : findUncomplete (some q) fd = none) : q.lookup fd = none := by
  unfold findUncomplete at h
  dsimp only at h
  split at h
  . next hfind => exact hfind
  . simp at h

structure Found (q : Queue) (fd : UInt32) (uc : Uncomplete) (q' : Queue) : Prop where
  wf : q'.WF
  ring : q'.ring = q.ring
  lookup : q.lookup fd = some uc
  gone : q'.lookup fd = none
  others : ∀ fd', fd' ≠ fd → q'.lookup fd' = q.lookup fd'

theorem WF.found (h : q.WF) {uc : Uncomplete} (hfind : findUncomplete (some q) fd = some (uc, q'))
    : Found q fd uc q' := by
  unfold findUncomplete at hfind
  dsimp only at hfind
  split at hfind
  . simp at hfind
  . next uc' huc' =>
    rw [Option.some.injEq, Prod.mk.injEq] at hfind
    obtain ⟨rfl, rfl⟩ := hfind
    have hsub : ∀ k, (Function.update q.hash (hashFd fd)
        ((q.hash (hashFd fd)).eraseP (·.id = fd)) k).Sublist (q.hash k) := by
      intro k
      rw [Function.update_apply]
      split
      . next heq =>
        rw [heq]
        exact List.eraseP_sublist
      . exact List.Sublist.refl _
    refine ⟨⟨h.ring, ?_, ?_, ?_⟩, rfl, huc', ?_, ?_⟩
    . intro k
      exact List.Nodup.sublist ((hsub k).map _) (h.nodup k)
    . intro k uc hmem
      exact h.chain k uc ((hsub k).subset hmem)
    . intro k uc hmem
      exact h.valid k uc ((hsub k).subset hmem)
    . unfold lookup
      dsimp only
      rw [Function.update_self, find?_eraseP (h.nodup _), if_pos rfl]
    . intro fd' hne
      unfold lookup
      dsimp only
      rw [Function.update_apply]
      split
      . next heq => rw [find?_eraseP (h.nodup _), if_neg hne, heq]
      . rfl

structure Cut (fd : UInt32) (q q' : Queue) (ps : List Payload) (rest : Bytes) : Prop where
  wf : q'.WF
  rest : q'.pending fd = rest
  others : ∀ fd', fd' ≠ fd → q'.lookup fd' = q.lookup fd'
  ring : q'.ring.toList = q.ring.toList ++ ps.map fun p => ⟨fd, p.body⟩

theorem WF.cut_nil (h : q.WF) (hnone : q.lookup fd = none) : Cut fd q q [] [] where
  wf := h
  rest := pending_eq_nil hnone
  others := fun _ _ => rfl
  ring := by simp

theorem WF.cut_save (h : q.WF) (hnone : q.lookup fd = none) {uc : Uncomplete} (hid : uc.id = fd)
    (hvalid : uc.Valid) : Cut fd q (Netpack.saveUncomplete uc q) [] uc.bytes where
  wf := by
    rw [← hid] at hnone
    exact h.saveUncomplete hvalid hnone
  rest := by
    apply pending_of_lookup
    rw [lookup_saveUncomplete, if_pos hid]
  others := by
    intro fd' hne
    rw [lookup_saveUncomplete, if_neg (fun heq => hne (heq.symm.trans hid))]
  ring := by simp [Netpack.saveUncomplete]

theorem WF.cut_body (h : q.WF) (hnone : q.lookup fd = none) {hi lo : UInt8} {body : Bytes}
    (hlt : body.length < Frame.size hi lo)
    : Cut fd q (Netpack.saveUncomplete (.body fd (Frame.size hi lo) body) q) []
        (hi :: lo :: body) := by
  have hvalid : Uncomplete.Valid (.body fd (Frame.size hi lo) body) := ⟨Frame.size_lt hi lo, hlt⟩
  have := h.cut_save hnone rfl hvalid
  rwa [Uncomplete.bytes, Frame.writeSize_size] at this

theorem WF.pushData (h : q.WF) (fd : UInt32) (buffer : Bytes)
    : (pushData fd buffer q).WF
        ∧ (pushData fd buffer q).ring.toList = q.ring.toList ++ [⟨fd, buffer⟩] := by
  obtain ⟨hring, hlist⟩ := RingBuffer.push_spec h.ring (show 0 < queuesize by decide) ⟨fd, buffer⟩
  exact ⟨⟨hring, h.nodup, h.chain, h.valid⟩, hlist⟩

theorem Cut.cons (h : q.WF) {p : Payload} {ps : List Payload} {rest : Bytes}
    (hcut : Cut fd (Netpack.pushData fd p.body q) q' ps rest) : Cut fd q q' (p :: ps) rest where
  wf := hcut.wf
  rest := hcut.rest
  others := hcut.others
  ring := by
    rw [hcut.ring, (h.pushData fd p.body).2]
    simp

theorem WF.pushMore (h : q.WF) (hnone : q.lookup fd = none) (buffer : Bytes)
    : ∃ ps rest, buffer = encode ps ++ rest ∧ Cut fd q (pushMore fd buffer q) ps rest := by
  fun_induction Netpack.pushMore fd buffer q with
  | case1 q => exact ⟨[], [], by simp, h.cut_nil hnone⟩
  | case2 q byte => exact ⟨[], [byte], by simp, h.cut_save hnone rfl trivial⟩
  | case3 q hi lo buffer packSize hlt =>
    have hsize : packSize = Frame.size hi lo := readSize_eq hi lo
    rw [hsize] at hlt ⊢
    exact ⟨[], hi :: lo :: buffer, by simp, h.cut_body hnone hlt⟩
  | case4 q hi lo buffer packSize hlt q1 rest hrest ih =>
    obtain ⟨p, hp, happend⟩ := exists_payload hlt
    obtain ⟨ps, rest', hps, hcut⟩ := ih (h.pushData fd (buffer.take packSize)).1 hnone
    refine ⟨p :: ps, rest', ?_, Cut.cons h (hp ▸ hcut)⟩
    rw [Frame.encode_cons, List.append_assoc, ← hps]
    exact happend
  | case5 q hi lo buffer packSize hlt q1 rest hrest =>
    obtain ⟨p, hp, happend⟩ := exists_payload hlt
    have hnil : rest = [] := List.eq_nil_of_length_eq_zero (Nat.le_zero.mp (Nat.le_of_not_gt hrest))
    refine ⟨[p], [], ?_, Cut.cons h (hp ▸ (h.pushData fd (buffer.take packSize)).1.cut_nil hnone)⟩
    rw [Frame.encode_cons, List.append_assoc, Frame.encode_nil, List.nil_append, ← hnil]
    exact happend

end Queue

def Result.packs (result : Result) (q : Queue) : List Pack :=
  match result with
  | .nothing => []
  | .data fd buffer => [⟨fd, buffer⟩]
  | .more => q.ring.toList

/--
Of the socket `fd` the bytes that were not handed out yet are handed out as the packets `ps`, up to
the new record.
-/
structure Filtered (fd : UInt32) (bytes : Bytes) (q : Queue) (result : Result × Queue)
    (ps : List Payload) : Prop where
  wf : result.2.WF
  bytes : bytes = encode ps ++ result.2.pending fd
  others : ∀ fd', fd' ≠ fd → result.2.lookup fd' = q.lookup fd'
  packs : result.1.packs result.2 = ps.map fun p => ⟨fd, p.body⟩
  empty : result.1 ≠ .more → result.2.ring.toList = []

namespace Filtered

variable {fd : UInt32} {q q' : Queue} {ps : List Payload} {rest : Bytes}

theorem nothing (hempty : q.ring.toList = []) (h : Queue.Cut fd q q' [] rest)
    : Filtered fd rest q (.nothing, q') [] where
  wf := h.wf
  bytes := by simp [h.rest]
  others := h.others
  packs := rfl
  empty := by simp [h.ring, hempty]

theorem data (h : q.WF) (hempty : q.ring.toList = []) (hnone : q.lookup fd = none) (p : Payload)
    : Filtered fd (Frame.ofPayload p) q (.data fd p.body, q) [p] where
  wf := h
  bytes := by simp [Queue.pending_eq_nil hnone]
  others := fun _ _ => rfl
  packs := rfl
  empty := fun _ => hempty

theorem more (hempty : q.ring.toList = []) (h : Queue.Cut fd q q' ps rest)
    : Filtered fd (encode ps ++ rest) q (.more, q') ps where
  wf := h.wf
  bytes := by rw [h.rest]
  others := h.others
  packs := by simp [Result.packs, h.ring, hempty]
  empty := by simp

end Filtered

section

variable {fd : UInt32} {q : Queue}

theorem push_more (h : q.WF) (hempty : q.ring.toList = []) (hnone : q.lookup fd = none) (p : Payload)
    (buffer : Bytes)
    : ∃ ps, Filtered fd (Frame.ofPayload p ++ buffer) q
        (.more, pushMore fd buffer (pushData fd p.body q)) ps := by
  obtain ⟨ps, rest, rfl, hcut⟩ := (h.pushData fd p.body).1.pushMore hnone buffer
  refine ⟨p :: ps, ?_⟩
  rw [← List.append_assoc, ← Frame.encode_cons]
  exact .more hempty (.cons h hcut)

theorem fillUncomplete_spec (h : q.WF) (hempty : q.ring.toList = []) (hnone : q.lookup fd = none)
    {size : Nat} (hsize : size < 0x10000) {read : Bytes} (hread : read.length ≤ size) (buffer : Bytes)
    : ∃ ps, Filtered fd (Frame.writeSize size ++ (read ++ buffer)) q
        (fillUncomplete fd size read buffer q) ps := by
  unfold fillUncomplete
  dsimp only
  split
  . next hlt =>
    have hvalid : Uncomplete.Valid (.body fd size (read ++ buffer)) := by
      refine ⟨hsize, ?_⟩
      rw [List.length_append]
      omega
    exact ⟨[], .nothing hempty (h.cut_save hnone rfl hvalid)⟩
  . next hge =>
    have hlength : (read ++ buffer.take (size - read.length)).length = size := by
      rw [List.length_append, List.length_take]
      omega
    obtain ⟨p, hp⟩ : ∃ p : Payload, p.body = read ++ buffer.take (size - read.length) :=
      ⟨⟨_, by rw [hlength]; exact hsize⟩, rfl⟩
    have hbytes : Frame.writeSize size ++ (read ++ buffer)
        = Frame.ofPayload p ++ buffer.drop (size - read.length) := by
      rw [Frame.ofPayload, hp, hlength, List.append_assoc, List.append_assoc,
        List.take_append_drop]
    rw [hbytes, ← hp]
    split
    . next hrest =>
      rw [List.eq_nil_of_length_eq_zero hrest, List.append_nil]
      exact ⟨[p], .data h hempty hnone p⟩
    . exact push_more h hempty hnone p _

end

theorem firstData_spec {fd : UInt32} {q : Option Queue} (h : (getQueue q).WF)
    (hempty : (getQueue q).ring.toList = []) (hnone : (getQueue q).lookup fd = none) (buffer : Bytes)
    : ∃ ps, Filtered fd buffer (getQueue q)
        ((firstData fd buffer q).1, getQueue (firstData fd buffer q).2) ps := by
  unfold firstData
  split
  . exact ⟨[], .nothing hempty (h.cut_nil hnone)⟩
  . next byte => exact ⟨[], .nothing hempty (h.cut_save hnone rfl trivial)⟩
  . next hi lo buffer =>
    dsimp only
    split
    . next hlt =>
      rw [readSize_eq] at hlt ⊢
      exact ⟨[], .nothing hempty (h.cut_body hnone hlt)⟩
    . next hge =>
      obtain ⟨p, hp, happend⟩ := exists_payload hge
      rw [happend]
      split
      . next heq =>
        rw [← heq, List.take_length] at hp
        rw [← heq, List.drop_length, List.append_nil, ← hp]
        exact ⟨[p], .data h hempty hnone p⟩
      . rw [← hp]
        exact push_more h hempty hnone p _

theorem Filtered.of_found {fd : UInt32} {bytes : Bytes} {q q' : Queue} {uc : Uncomplete}
    {result : Result × Queue} {ps : List Payload} (hfound : Queue.Found q fd uc q')
    (h : Filtered fd bytes q' result ps) : Filtered fd bytes q result ps where
  wf := h.wf
  bytes := h.bytes
  others := by
    intro fd' hne
    rw [h.others fd' hne, hfound.others fd' hne]
  packs := h.packs
  empty := h.empty

theorem lookup_of_findUncomplete_none {fd : UInt32} {q : Option Queue}
    (h : findUncomplete q fd = none) : (getQueue q).lookup fd = none := by
  cases q with
  | none => exact Queue.lookup_new fd
  | some q => exact Queue.findUncomplete_none h

theorem filterData_spec {q : Option Queue} (h : (getQueue q).WF)
    (hempty : (getQueue q).ring.toList = []) (fd : UInt32) {buffer : Bytes} (hbuffer : buffer ≠ [])
    : ∃ ps, Filtered fd ((getQueue q).pending fd ++ buffer) (getQueue q)
        ((filterData fd buffer q).1, getQueue (filterData fd buffer q).2) ps := by
  unfold filterData
  cases hfind : findUncomplete q fd with
  | none =>
    have hnone := lookup_of_findUncomplete_none hfind
    rw [Queue.pending_eq_nil hnone]
    exact firstData_spec h hempty hnone buffer
  | some found =>
    obtain ⟨uc, q'⟩ := found
    cases q with
    | none => simp [findUncomplete] at hfind
    | some q =>
      have hfound := h.found hfind
      have hvalid := h.valid _ uc (List.mem_of_find?_eq_some hfound.lookup)
      have hempty' : q'.ring.toList = [] := by
        rw [hfound.ring]
        exact hempty
      have hpending : (getQueue (some q)).pending fd = uc.bytes :=
        Queue.pending_of_lookup hfound.lookup
      rw [hpending]
      cases buffer with
      | nil => exact absurd rfl hbuffer
      | cons byte buffer =>
        cases uc with
        | header id header =>
          have hsize : byte.toNat ||| header.toNat <<< 8 = Frame.size header byte := by
            rw [← readSize_eq, readSize, Nat.or_comm]
          have hbytes : (Uncomplete.header id header).bytes ++ byte :: buffer
              = Frame.writeSize (Frame.size header byte) ++ ([] ++ buffer) := by
            rw [Frame.writeSize_size]
            rfl
          dsimp only
          rw [hsize, hbytes]
          obtain ⟨ps, hps⟩ := fillUncomplete_spec hfound.wf hempty' hfound.gone
            (Frame.size_lt header byte) (show ([] : Bytes).length ≤ _ from Nat.zero_le _) buffer
          exact ⟨ps, .of_found hfound hps⟩
        | body id size read =>
          rw [Uncomplete.bytes, List.append_assoc]
          obtain ⟨ps, hps⟩ := fillUncomplete_spec hfound.wf hempty' hfound.gone hvalid.1
            (Nat.le_of_lt hvalid.2) (byte :: buffer)
          exact ⟨ps, .of_found hfound hps⟩

def fed (chunks : List (UInt32 × Bytes)) (fd : UInt32) : Bytes :=
  ((chunks.filter (·.1 = fd)).map Prod.snd).flatten

def Gate.of (g : Gate) (fd : UInt32) : List Bytes :=
  (g.received.filter (·.id = fd)).map Pack.buffer

structure Gate.Inv (g : Gate) (stream : UInt32 → Bytes) : Prop where
  wf : (getQueue g.queue).WF
  empty : (getQueue g.queue).ring.toList = []
  split : ∀ fd, ∃ ps, g.of fd = ps.map Payload.body
    ∧ stream fd = encode ps ++ (getQueue g.queue).pending fd

structure Gate.Fed (g : Gate) (fd : UInt32) (buffer : Bytes) (g' : Gate) (ps : List Payload) : Prop
    where
  wf : (getQueue g'.queue).WF
  empty : (getQueue g'.queue).ring.toList = []
  received : g'.received = g.received ++ ps.map fun p => ⟨fd, p.body⟩
  bytes : (getQueue g.queue).pending fd ++ buffer = encode ps ++ (getQueue g'.queue).pending fd
  others : ∀ fd', fd' ≠ fd →
    (getQueue g'.queue).pending fd' = (getQueue g.queue).pending fd'

theorem Gate.feed_spec {g : Gate} (h : (getQueue g.queue).WF)
    (hempty : (getQueue g.queue).ring.toList = []) (fd : UInt32) {buffer : Bytes}
    (hbuffer : buffer ≠ []) : ∃ ps, Fed g fd buffer (g.feed fd buffer) ps := by
  obtain ⟨ps, hps⟩ := filterData_spec h hempty fd hbuffer
  refine ⟨ps, ?_⟩
  have hothers : ∀ fd', fd' ≠ fd → (getQueue (filterData fd buffer g.queue).2).pending fd'
      = (getQueue g.queue).pending fd' :=
    fun fd' hne => Queue.pending_congr (hps.others fd' hne)
  unfold Gate.feed
  generalize filterData fd buffer g.queue = filtered at hps hothers
  obtain ⟨result, q⟩ := filtered
  cases result with
  | nothing =>
    have hpacks := hps.packs
    simp only [Result.packs] at hpacks
    exact ⟨hps.wf, hps.empty (by simp), by simp [← hpacks], hps.bytes, hothers⟩
  | data fd' buffer' =>
    have hpacks := hps.packs
    simp only [Result.packs] at hpacks
    exact ⟨hps.wf, hps.empty (by simp), by simp [← hpacks], hps.bytes, hothers⟩
  | more =>
    obtain ⟨hall, hwf, hnil⟩ := RingBuffer.popAll_spec hps.wf.ring (getQueue q).ring.count
      (le_of_eq (RingBuffer.length_toList _))
    refine ⟨⟨hwf, hps.wf.nodup, hps.wf.chain, hps.wf.valid⟩, hnil, ?_, hps.bytes, hothers⟩
    dsimp only
    rw [hall]
    exact congrArg _ hps.packs

theorem Gate.Inv.feed {g : Gate} {stream : UInt32 → Bytes} (h : g.Inv stream) (fd : UInt32)
    {buffer : Bytes} (hbuffer : buffer ≠ [])
    : (g.feed fd buffer).Inv (Function.update stream fd (stream fd ++ buffer)) := by
  obtain ⟨ps, hfed⟩ := Gate.feed_spec h.wf h.empty fd hbuffer
  refine ⟨hfed.wf, hfed.empty, ?_⟩
  intro fd'
  obtain ⟨qs, hqs, hstream⟩ := h.split fd'
  have hof : (g.feed fd buffer).of fd'
      = g.of fd' ++ if fd' = fd then ps.map Payload.body else [] := by
    unfold Gate.of
    rw [hfed.received, List.filter_append, List.map_append]
    congr 1
    split
    . next heq =>
      subst heq
      simp [List.filter_map, Function.comp_def]
    . next hne => simp [List.filter_map, Function.comp_def, Ne.symm hne]
  rw [hof, Function.update_apply]
  split
  . next heq =>
    subst heq
    refine ⟨qs ++ ps, by simp [hqs], ?_⟩
    rw [hstream, List.append_assoc, hfed.bytes, Frame.encode_append, List.append_assoc]
  . next hne =>
    refine ⟨qs, by simp [hqs], ?_⟩
    rw [hstream, hfed.others fd' hne]

theorem after_inv {chunks : List (UInt32 × Bytes)} (hne : ∀ chunk ∈ chunks, chunk.2 ≠ [])
    : (after chunks).Inv (fed chunks) := by
  induction chunks using List.reverseRecOn with
  | nil => exact ⟨Queue.wf_new, by simp [after, getQueue], fun fd => ⟨[], rfl, rfl⟩⟩
  | append_singleton chunks chunk ih =>
    have hstep := (ih (fun c hc => hne c (by simp [hc]))).feed chunk.1 (hne chunk (by simp))
    have hfed : fed (chunks ++ [chunk])
        = Function.update (fed chunks) chunk.1 (fed chunks chunk.1 ++ chunk.2) := by
      funext fd
      rw [Function.update_apply]
      unfold fed
      rw [List.filter_append, List.map_append, List.flatten_append]
      split
      . next heq => simp [heq]
      . next hne => simp [Ne.symm hne]
    rw [hfed, after, List.foldl_append]
    exact hstep

def Gate.Clear (g : Gate) : Prop :=
  ∀ q, g.queue = some q → (∀ h, q.hash h = []) ∧ q.ring.pop = none

theorem Queue.WF.hash_eq_nil {q : Queue} (h : q.WF) (hpending : ∀ fd, q.pending fd = []) (k : Nat)
    : q.hash k = [] := by
  rw [List.eq_nil_iff_forall_not_mem]
  intro uc huc
  have hchain := h.chain k uc huc
  cases hlookup : q.lookup uc.id with
  | none =>
    rw [lookup, hchain, List.find?_eq_none] at hlookup
    exact hlookup uc huc (by simp)
  | some found =>
    have := hpending uc.id
    rw [pending_of_lookup hlookup] at this
    cases found with
    | header id byte => simp [Uncomplete.bytes] at this
    | body id size buffer => simp [Uncomplete.bytes, Frame.writeSize] at this

theorem packets_flatten {payloads : List Payload} {packets : List Bytes}
    (h : payloads.mapM (fun p => Gate.pack p.body) = some packets)
    : packets.flatten = encode payloads := by
  have hpack : (fun p : Payload => Gate.pack p.body) = fun p => some (Frame.ofPayload p) :=
    funext Gate.pack_payload
  have hmapM : payloads.mapM (fun p => some (Frame.ofPayload p))
      = some (payloads.map Frame.ofPayload) := List.mapM_pure
  rw [hpack, hmapM, Option.some.injEq] at h
  rw [← h]
  rfl

theorem received_eq_payloads (payloads : UInt32 → List Payload) (chunks : List (UInt32 × Bytes))
    (hne : ∀ chunk ∈ chunks, chunk.2 ≠ [])
    (hstream : ∀ fd, ∃ packets, (payloads fd).mapM (fun p => Gate.pack p.body) = some packets
      ∧ fed chunks fd = packets.flatten)
    : (∀ fd, (after chunks).of fd = (payloads fd).map Payload.body) ∧ (after chunks).Clear := by
  have h := after_inv hne
  have hall : ∀ fd, (after chunks).of fd = (payloads fd).map Payload.body
      ∧ (getQueue (after chunks).queue).pending fd = [] := by
    intro fd
    obtain ⟨ps, hps, hsplit⟩ := h.split fd
    obtain ⟨packets, hpackets, hfed⟩ := hstream fd
    rw [hfed, packets_flatten hpackets] at hsplit
    have hnil : Incomplete [] := by
      intro hi lo body heq
      simp at heq
    rw [← List.append_nil (encode (payloads fd))] at hsplit
    obtain ⟨rfl, hpending⟩ := Frame.encode_unique hsplit.symm (h.wf.incomplete fd) hnil
    exact ⟨hps, hpending⟩
  refine ⟨fun fd => (hall fd).1, ?_⟩
  intro q hq
  have hwf := h.wf
  have hempty := h.empty
  rw [hq] at hwf hempty
  refine ⟨hwf.hash_eq_nil ?_, RingBuffer.pop_eq_none hwf.ring hempty⟩
  intro fd
  have := (hall fd).2
  rwa [hq] at this

def samplePayloads (fd : UInt32) : List Payload :=
  if fd = 3 then
    [⟨[97, 98], by decide⟩, ⟨[], by decide⟩]
  else if fd = 4 then
    [⟨[99], by decide⟩]
  else
    []

def mixed : List (UInt32 × Bytes) :=
  [(3, [0]), (4, [0, 1]), (3, [2, 97]), (4, [99]), (3, [98, 0, 0])]

theorem received_eq_payloads_mixed
    : (∀ fd, (after mixed).of fd = (samplePayloads fd).map Payload.body) ∧ (after mixed).Clear := by
  apply received_eq_payloads
  . decide
  . intro fd
    by_cases h3 : fd = 3
    . subst h3
      exact ⟨[[0, 2, 97, 98], [0, 0]], by decide +kernel, by decide⟩
    . by_cases h4 : fd = 4
      . subst h4
        exact ⟨[[0, 1, 99]], by decide +kernel, by decide⟩
      . exact ⟨[], by simp [samplePayloads, h3, h4], by simp [fed, mixed, Ne.symm h3, Ne.symm h4]⟩

end Netpack
