import EdgeMulticast.Archive.Object

/-!
# Upstream objects are read back whole or refused

A reader over a written object, however its bytes come, hands out the messages and then the clean end.
Over a part of it, the reader hands out the messages that are whole and refuses what is left of the
next (`next_cut`).  `next_cases` says what one call may do whatever the bytes are.
-/

namespace EdgeMulticast.Archive

open EdgeMulticast.Lib

/-- A message as a reader hands it out. -/
def UpstreamConnection.message (c : UpstreamConnection) (m : UpstreamRecord) : UpstreamMessage :=
  ⟨c.name, c.recvTsKind.kind, m.recvTsNs, m.bytes⟩

namespace UpstreamRecord

/-- What stands before the bytes of a message. -/
def header (m : UpstreamRecord) : List Byte :=
  le16 m.connection ++ le64 m.recvTsNs ++ le32 (UInt32.ofNat m.bytes.length)

theorem encode_eq (m : UpstreamRecord) : m.encode = m.header ++ m.bytes := rfl

theorem length_header (m : UpstreamRecord) : m.header.length = RECORD_HEADER_LEN := rfl

theorem encode_ne_nil (m : UpstreamRecord) : m.encode ≠ [] := by
  rw [← List.length_pos_iff, length_encode, RECORD_HEADER_LEN]
  omega

end UpstreamRecord

theorem Fits.toNat_length {connections : List UpstreamConnection} {m : UpstreamRecord}
    (h : Fits connections m) : (UInt32.ofNat m.bytes.length).toNat = m.bytes.length :=
  UInt32.toNat_ofNat_of_lt' (h.bound.trans_lt (by decide))

namespace UpstreamObjectReader

/-! ## One call -/

/-- What one call may come to: a message that the stream holds, the end, or a refusal. -/
inductive Next (r : UpstreamObjectReader) :
    Except UpstreamFormatError (Option UpstreamMessage) × UpstreamObjectReader → Prop where
  | message (m : UpstreamRecord) (c : UpstreamConnection) (t : Source Byte)
      (hgoing : r.refused = false) (hrest : r.inner.rest = m.encode ++ t.rest)
      (hconnection : r.connections[m.connection.toNat]? = some c)
      (hbound : m.bytes.length ≤ MAX_UPSTREAM_MESSAGE_BYTES.toNat) :
      Next r (.ok (some (c.message m)),
        { r with inner := t, buffer := m.bytes, messagesRead := r.messagesRead + 1 })
  | ended (t : Source Byte) (hgoing : r.refused = false) : Next r (.ok none, { r with inner := t })
  | refused (e : UpstreamFormatError) (r' : UpstreamObjectReader)
      (hconnections : r'.connections = r.connections) (hrefused : r'.refused = true)
      (hbuffer : r'.buffer.length ≤ max r.buffer.length MAX_UPSTREAM_MESSAGE_BYTES.toNat) :
      Next r (.error e, r')

variable {r : UpstreamObjectReader}

/-- The body is read whole, or the record is refused. -/
theorem nextBody_cases (r : UpstreamObjectReader) (c : UpstreamConnection) (recvTsNs : UInt64)
    (len : UInt32) :
    (∃ body t, body.length = len.toNat ∧ r.inner.rest = body ++ t.rest ∧
      r.nextBody c recvTsNs len = (.ok (some ⟨c.name, c.recvTsKind.kind, recvTsNs, body⟩),
        { r with inner := t, buffer := body, messagesRead := r.messagesRead + 1 })) ∨
    ∃ e r', r.nextBody c recvTsNs len = (.error e, r') ∧ r'.connections = r.connections ∧
      r'.refused = true ∧ r'.buffer.length = len.toNat := by
  unfold nextBody
  generalize hout : r.inner.fill len.toNat = out
  obtain ⟨_ | body, t⟩ := out
  · exact .inr ⟨_, _, rfl, rfl, rfl, List.length_replicate⟩
  · obtain ⟨hbody, ht⟩ := Source.of_fill hout
    have hle : body.length ≤ len.toNat := hbody ▸ List.length_take_le _ _
    dsimp only
    split
    next hshort =>
        refine .inr ⟨_, _, rfl, rfl, rfl, ?_⟩
        rw [List.length_append, List.length_replicate, Nat.add_sub_of_le hle]
    next hshort =>
        have hlen : body.length = len.toNat := Nat.le_antisymm hle (Nat.le_of_not_lt hshort)
        refine .inl ⟨body, t, hlen, ?_, ?_⟩
        · rw [ht, hbody, List.take_append_drop]
        · rw [hlen, Nat.sub_self, List.replicate_zero, List.append_nil]

theorem next_cases (r : UpstreamObjectReader) : r.Next r.nextMessage := by
  unfold nextMessage
  split
  next hrefused => exact .refused _ r rfl hrefused (Nat.le_max_left _ _)
  next hgoing =>
      rw [Bool.not_eq_true] at hgoing
      generalize hout : r.inner.fill RECORD_HEADER_LEN = out
      obtain ⟨_ | header, mid⟩ := out
      · exact .refused _ _ rfl rfl (Nat.le_max_left _ _)
      · obtain ⟨hheader, hmid⟩ := Source.of_fill hout
        have hle : header.length ≤ RECORD_HEADER_LEN := hheader ▸ List.length_take_le _ _
        dsimp only
        split
        next => exact .ended mid hgoing
        next =>
            split
            next => exact .refused _ _ rfl rfl (Nat.le_max_left _ _)
            next hshort =>
                have hlen : header.length = 14 := Nat.le_antisymm hle (Nat.le_of_not_lt hshort)
                split
                next => exact .refused _ _ rfl rfl (Nat.le_max_left _ _)
                next hbound =>
                    rw [UInt32.not_lt, UInt32.le_iff_toNat_le] at hbound
                    split
                    next => exact .refused _ _ rfl rfl (Nat.le_max_left _ _)
                    next c hc =>
                        rcases nextBody_cases { r with inner := mid } c (u64At header 2)
                          (u32At header 10) with ⟨body, t, hbody, hrest, heq⟩ |
                          ⟨e, r', heq, hconnections, hrefused, hbuffer⟩
                        · rw [heq]
                          refine .message ⟨u16At header 0, u64At header 2, body⟩ c t hgoing ?_ hc
                            (hbody ▸ hbound)
                          dsimp only [UpstreamRecord.encode] at hrest ⊢
                          rw [hbody, UInt32.ofNat_toNat, le16_u16At (by omega),
                            le64_u64At (by omega), le32_u32At (by omega),
                            slice_append header 0 2 8, slice_append header 0 10 4,
                            show 10 + 4 = header.length from hlen.symm, slice_zero, List.append_assoc,
                            ← hrest, hmid, hheader, List.take_append_drop]
                        · rw [heq]
                          exact .refused e r' hconnections hrefused
                            (hbuffer ▸ hbound.trans (Nat.le_max_right _ _))

/-! ## Over a written object -/

/-- A reader that has handed out `k` messages of an object and has not refused it.  The stream, which
does not fail, holds `bytes`. -/
structure At (r : UpstreamObjectReader) (objectKey : String) (connections : List UpstreamConnection)
    (k : ℕ) (bytes : List Byte) : Prop where
  objectKey : r.objectKey = objectKey
  connections : r.connections = connections
  messagesRead : r.messagesRead = UInt64.ofNat k
  going : r.refused = false
  ahead : Ahead r.inner bytes

variable {objectKey : String} {connections : List UpstreamConnection} {k : ℕ} {rest : List Byte}
  {m : UpstreamRecord}

/-- Once its header is read, a record is read on as its body. -/
theorem At.header (h : r.At objectKey connections k (m.header ++ rest)) (hfits : Fits connections m) :
    ∃ c mid, connections[m.connection.toNat]? = some c ∧ Ahead mid rest ∧
      r.nextMessage = { r with inner := mid }.nextBody c m.recvTsNs (UInt32.ofNat m.bytes.length) := by
  obtain ⟨mid, hsound, hrest, hfill⟩ := h.ahead.1.fill RECORD_HEADER_LEN
  rw [h.ahead.2, ← m.length_header, List.drop_left] at hrest
  rw [h.ahead.2, ← m.length_header, List.take_left] at hfill
  obtain ⟨c, hc⟩ : ∃ c, connections[m.connection.toNat]? = some c :=
    ⟨_, List.getElem?_eq_getElem hfits.declared⟩
  refine ⟨c, mid, hc, ⟨hsound, hrest⟩, ?_⟩
  have hindex : u16At m.header 0 = m.connection := u16At_eq rfl
  have hstamp : u64At m.header 2 = m.recvTsNs := u64At_eq rfl
  have hlength : u32At m.header 10 = UInt32.ofNat m.bytes.length := u32At_eq rfl
  rw [nextMessage, if_neg (by rw [h.going]; exact Bool.false_ne_true), ← m.length_header, hfill]
  dsimp only
  rw [if_neg (by rw [m.length_header]; decide), if_neg (Nat.lt_irrefl _), hindex, hstamp, hlength,
    if_neg (by
      rw [UInt32.not_lt, UInt32.le_iff_toNat_le, hfits.toNat_length]
      exact hfits.bound), h.connections, hc]

/-- A message that the stream holds whole is handed out. -/
theorem At.whole (h : r.At objectKey connections k (m.encode ++ rest)) (hfits : Fits connections m) :
    (∃ c, connections[m.connection.toNat]? = some c ∧
      r.nextMessage.1 = .ok (some (c.message m))) ∧
    r.nextMessage.2.At objectKey connections (k + 1) rest := by
  rw [m.encode_eq, List.append_assoc] at h
  obtain ⟨c, mid, hc, hmid, heq⟩ := h.header hfits
  obtain ⟨t, hsound, hrest, hfill⟩ := hmid.1.fill m.bytes.length
  rw [hmid.2, List.drop_left] at hrest
  rw [hmid.2, List.take_left] at hfill
  rw [heq, nextBody, hfits.toNat_length, hfill]
  dsimp only
  rw [Nat.sub_self, List.replicate_zero, List.append_nil, if_neg (Nat.lt_irrefl _)]
  refine ⟨⟨c, hc, rfl⟩, ⟨h.objectKey, h.connections, ?_, h.going, hsound, hrest⟩⟩
  dsimp only
  rw [h.messagesRead, UInt64.ofNat_add]
  rfl

/-- At the end of the stream there is nothing to hand out, and it stays so. -/
theorem At.ended (h : r.At objectKey connections k []) :
    r.nextMessage.1 = .ok none ∧ r.nextMessage.2.At objectKey connections k [] := by
  obtain ⟨t, hsound, hrest, hfill⟩ := h.ahead.1.fill RECORD_HEADER_LEN
  rw [h.ahead.2, List.drop_nil] at hrest
  rw [h.ahead.2, List.take_nil] at hfill
  rw [nextMessage, if_neg (by rw [h.going]; exact Bool.false_ne_true), hfill]
  exact ⟨rfl, h.objectKey, h.connections, h.messagesRead, h.going, hsound, hrest⟩

/-- What is left of a message that was cut is refused. -/
theorem At.cut {tail : List Byte} (h : r.At objectKey connections k tail) (hfits : Fits connections m)
    (hcut : tail <+: m.encode) (hnil : tail ≠ []) (hne : tail ≠ m.encode) :
    ∃ what wanted got, r.nextMessage.1 =
      .error (.truncated objectKey what (UInt64.ofNat k) wanted got) := by
  by_cases hshort : tail.length < RECORD_HEADER_LEN
  · obtain ⟨t, -, -, hfill⟩ := h.ahead.1.fill RECORD_HEADER_LEN
    rw [h.ahead.2, List.take_of_length_le hshort.le] at hfill
    rw [nextMessage, if_neg (by rw [h.going]; exact Bool.false_ne_true), hfill]
    dsimp only
    rw [if_neg (by rwa [List.length_eq_zero_iff]), if_pos hshort, h.objectKey, h.messagesRead]
    exact ⟨_, _, _, rfl⟩
  · rw [m.encode_eq] at hcut hne
    obtain ⟨body, rfl⟩ : m.header <+: tail := by
      refine List.prefix_of_prefix_length_le (List.prefix_append _ _) hcut ?_
      rw [m.length_header]
      exact Nat.le_of_not_lt hshort
    rw [List.prefix_append_right_inj] at hcut
    have hbody : body.length < m.bytes.length := by
      refine Nat.lt_of_le_of_ne hcut.length_le fun hlen ↦ hne ?_
      rw [hcut.eq_of_length hlen]
    obtain ⟨c, mid, hc, hmid, heq⟩ := h.header hfits
    obtain ⟨t, -, -, hfill⟩ := hmid.1.fill m.bytes.length
    rw [hmid.2, List.take_of_length_le hbody.le] at hfill
    rw [heq, nextBody, hfits.toNat_length, hfill]
    dsimp only
    rw [if_pos hbody, h.objectKey, h.messagesRead]
    exact ⟨_, _, _, rfl⟩

/-! ## Call after call -/

/-- The reader after `n` calls. -/
def after (r : UpstreamObjectReader) : ℕ → UpstreamObjectReader
  | 0 => r
  | n + 1 => (r.after n).nextMessage.2

/-- What the call after `n` others returns. -/
def answer (r : UpstreamObjectReader) (n : ℕ) :
    Except UpstreamFormatError (Option UpstreamMessage) := (r.after n).nextMessage.1

theorem after_next (r : UpstreamObjectReader) (n : ℕ) :
    r.nextMessage.2.after n = r.after (n + 1) := by
  induction n with
  | zero => rfl
  | succ n ih => rw [after, ih, ← after]

theorem answer_next (r : UpstreamObjectReader) (n : ℕ) :
    r.nextMessage.2.answer n = r.answer (n + 1) := by rw [answer, after_next, answer]

/-- The first calls hand out the messages, one after the other. -/
def HandsOut (r : UpstreamObjectReader) (connections : List UpstreamConnection)
    (messages : List UpstreamRecord) : Prop :=
  ∀ i m, messages[i]? = some m → ∃ c, connections[m.connection.toNat]? = some c ∧
    r.answer i = .ok (some (c.message m))

theorem At.run {messages : List UpstreamRecord}
    (h : r.At objectKey connections k ((messages.map (·.encode)).flatten ++ rest))
    (hfits : ∀ m ∈ messages, Fits connections m) : r.HandsOut connections messages ∧
      (r.after messages.length).At objectKey connections (k + messages.length) rest := by
  induction messages generalizing r k with
  | nil => exact ⟨nofun, h⟩
  | cons m messages ih =>
      obtain ⟨hm, hfits⟩ := List.forall_mem_cons.mp hfits
      rw [List.map_cons, List.flatten_cons, List.append_assoc] at h
      obtain ⟨hfirst, hnext⟩ := h.whole hm
      obtain ⟨hmore, hend⟩ := ih hnext hfits
      constructor
      · intro i m' hi
        cases i with
        | zero =>
            obtain rfl := Option.some.inj hi
            exact hfirst
        | succ i =>
            rw [← answer_next]
            exact hmore i m' hi
      · rw [after_next, Nat.add_assoc, Nat.add_comm 1] at hend
        exact hend

theorem At.rest_ended (h : (r.after k).At objectKey connections k []) {i : ℕ} (hi : k ≤ i) :
    r.answer i = .ok none := by
  have hat : (r.after i).At objectKey connections k [] := by
    induction i, hi using Nat.le_induction with
    | base => exact h
    | succ i _ ih => exact ih.ended.2
  exact hat.ended.1

/-- Once it has refused, a reader refuses. -/
theorem refused_of_answer {i : ℕ} {e : UpstreamFormatError} (h : r.answer i = .error e) {j : ℕ}
    (hij : i ≤ j) : ∃ e', r.answer j = .error e' := by
  have hafter {j : ℕ} {e : UpstreamFormatError} (hj : r.answer j = .error e) :
      (r.after (j + 1)).refused = true := by
    have hcases := next_cases (r.after j)
    rw [answer] at hj
    rw [after]
    generalize (r.after j).nextMessage = out at hj hcases
    cases hcases with
    | message => cases hj
    | ended => cases hj
    | refused e r' _ hrefused _ => exact hrefused
  induction j, hij using Nat.le_induction with
  | base => exact ⟨e, h⟩
  | succ j _ ih =>
      obtain ⟨e', hj⟩ := ih
      rw [answer, nextMessage, if_pos (hafter hj)]
      exact ⟨_, rfl⟩

theorem after_bounded (hbuffer : r.buffer.length ≤ MAX_UPSTREAM_MESSAGE_BYTES.toNat) (i : ℕ) :
    (r.after i).connections = r.connections ∧
      (r.after i).buffer.length ≤ MAX_UPSTREAM_MESSAGE_BYTES.toNat := by
  induction i with
  | zero => exact ⟨rfl, hbuffer⟩
  | succ i ih =>
      obtain ⟨hconnections, hlen⟩ := ih
      have hcases := next_cases (r.after i)
      rw [after]
      generalize (r.after i).nextMessage = out at hcases
      cases hcases with
      | message m _ _ _ _ _ hbound => exact ⟨hconnections, hbound⟩
      | ended => exact ⟨hconnections, hlen⟩
      | refused _ _ hconnections' _ hlen' =>
          exact ⟨hconnections'.trans hconnections, hlen'.trans (Nat.max_le.mpr ⟨hlen, le_rfl⟩)⟩

/-! ## From the front of the object -/

theorem of_open {s : Source Byte} (h : UpstreamObjectReader.open objectKey s = .ok r) :
    Declarable r.connections ∧ s.rest = headerOf r.connections ++ r.inner.rest ∧ r.buffer = [] := by
  obtain ⟨⟨⟨version, connections⟩, mid⟩, hheader, h⟩ := bind_eq_ok.mp h
  cases h
  obtain ⟨hdeclarable, hrest⟩ := of_readHeader hheader
  exact ⟨hdeclarable, hrest, rfl⟩

theorem open_ahead (objectKey : String) {s : Source Byte} (h : Ahead s (headerOf connections ++ rest))
    (hdeclarable : Declarable connections) :
    ∃ r, UpstreamObjectReader.open objectKey s = .ok r ∧ r.At objectKey connections 0 rest := by
  obtain ⟨mid, hmid, hheader⟩ := readHeader_ahead objectKey h hdeclarable
  exact ⟨_, bind_eq_ok.mpr ⟨_, hheader, rfl⟩, rfl, rfl, rfl, rfl, hmid⟩

/-- A part of a header is refused. -/
theorem open_cut {s : Source Byte} (hcut : s.rest <+: headerOf connections)
    (hshort : s.rest.length < (headerOf connections).length) (hdeclarable : Declarable connections) :
    ∃ e, UpstreamObjectReader.open objectKey s = .error e := by
  cases hopen : UpstreamObjectReader.open objectKey s with
  | error e => exact ⟨e, rfl⟩
  | ok r =>
      obtain ⟨hdeclarable', hrest, -⟩ := of_open hopen
      obtain ⟨more, hmore⟩ := hcut
      -- The whole header would be read as this one with bytes behind it.
      have hwhole : Ahead ⟨[], headerOf connections⟩ (headerOf connections ++ []) :=
        ⟨List.not_mem_nil, (List.append_nil _).symm⟩
      have hother : Ahead ⟨[], headerOf connections⟩
          (headerOf r.connections ++ (r.inner.rest ++ more)) := by
        refine ⟨List.not_mem_nil, ?_⟩
        rw [← List.append_assoc, ← hrest]
        exact hmore.symm
      obtain ⟨t, ht, hread⟩ := readHeader_ahead objectKey hwhole hdeclarable
      obtain ⟨t', ht', hread'⟩ := readHeader_ahead objectKey hother hdeclarable'
      rw [hread] at hread'
      cases hread'
      have hnil : r.inner.rest ++ more = [] := ht'.2.symm.trans ht.2
      rw [(List.append_eq_nil_iff.mp hnil).2, List.append_nil] at hmore
      rw [hmore] at hshort
      exact absurd hshort (Nat.lt_irrefl _)

variable {messages : List UpstreamRecord}

/-- Over a whole object. -/
theorem open_whole (objectKey : String) (hdeclarable : Declarable connections)
    (hfits : ∀ m ∈ messages, Fits connections m) {s : Source Byte} (hsound : s.Sound)
    (hrest : s.rest = object connections messages) :
    ∃ r, UpstreamObjectReader.open objectKey s = .ok r ∧ r.HandsOut connections messages ∧
      ∀ i, messages.length ≤ i → r.answer i = .ok none := by
  rw [object, ← List.append_nil (List.flatten _)] at hrest
  obtain ⟨r, hopen, hat⟩ := open_ahead objectKey ⟨hsound, hrest⟩ hdeclarable
  obtain ⟨hmessages, hend⟩ := hat.run hfits
  rw [Nat.zero_add] at hend
  exact ⟨r, hopen, hmessages, fun i ↦ hend.rest_ended⟩

/-- Over a part of an object that has its whole header. -/
theorem open_part (objectKey : String) (hdeclarable : Declarable connections)
    (hfits : ∀ m ∈ messages, Fits connections m) {s : Source Byte} (hsound : s.Sound)
    (hpart : s.rest <+: object connections messages)
    (hheader : (headerOf connections).length ≤ s.rest.length) :
    ∃ r k, UpstreamObjectReader.open objectKey s = .ok r ∧ k ≤ messages.length ∧
      (∀ j ≤ messages.length, object connections (messages.take j) <+: s.rest ↔ j ≤ k) ∧
      r.HandsOut connections (messages.take k) ∧
      (s.rest = object connections (messages.take k) → ∀ i, k ≤ i → r.answer i = .ok none) ∧
      (s.rest ≠ object connections (messages.take k) → ∃ what wanted got,
        r.answer k = .error (.truncated objectKey what (UInt64.ofNat k) wanted got)) := by
  rw [object] at hpart
  obtain ⟨front, hfront⟩ := List.prefix_of_prefix_length_le (List.prefix_append _ _) hpart hheader
  rw [← hfront, List.prefix_append_right_inj] at hpart
  obtain ⟨k, tail, hcut, rfl⟩ := exists_cut hpart
  have hk : k ≤ messages.length := by
    have hle := hcut.le_length
    rwa [List.length_map] at hle
  rw [← List.map_take] at hfront
  obtain ⟨r, hopen, hat⟩ := open_ahead objectKey ⟨hsound, hfront.symm⟩ hdeclarable
  obtain ⟨hmessages, hend⟩ := hat.run fun m hm ↦ hfits m (List.mem_of_mem_take hm)
  rw [Nat.zero_add, List.length_take, Nat.min_eq_left hk] at hend
  refine ⟨r, k, hopen, hk, fun j hj ↦ ?_, hmessages, fun heq ↦ ?_, fun hne ↦ ?_⟩
  · rw [← hfront, object, List.prefix_append_right_inj, List.map_take, List.map_take]
    refine hcut.whole_iff (fun hnil ↦ ?_) (by rwa [List.length_map])
    obtain ⟨m, -, hm⟩ := List.mem_map.mp hnil
    exact m.encode_ne_nil hm
  · have htail : tail = [] := by
      rw [← hfront, object, ← List.append_assoc] at heq
      exact List.append_right_eq_self.mp heq
    rw [htail] at hend
    exact fun i ↦ hend.rest_ended
  · cases hcut with
    | between =>
        rw [← hfront, List.append_nil] at hne
        exact absurd rfl hne
    | inside hget hcut hnil hne =>
        rw [List.getElem?_map, Option.map_eq_some_iff] at hget
        obtain ⟨m, hm, rfl⟩ := hget
        exact hend.cut (hfits m (List.mem_of_getElem? hm)) hcut hnil hne

/-- A message that is handed out is a record of the stream, and its connection is a declared one. -/
theorem answer_message {i : ℕ} {message : UpstreamMessage} (h : r.answer i = .ok (some message)) :
    ∃ (m : UpstreamRecord) (c : UpstreamConnection) (rest : List Byte),
      (r.after i).inner.rest = m.encode ++ rest ∧
      (r.after i).connections[m.connection.toNat]? = some c ∧ message = c.message m := by
  have hcases := next_cases (r.after i)
  rw [answer] at h
  generalize (r.after i).nextMessage = out at h hcases
  cases hcases with
  | message m c t _ hrest hconnection _ =>
      cases h
      exact ⟨m, c, t.rest, hrest, hconnection, rfl⟩
  | ended => cases h
  | refused => cases h

end UpstreamObjectReader

/-- **An upstream object is read back whole or refused.**  Over the bytes that a writer has written,
however they come, a reader hands out the messages and then the clean end.  Over a part of them it is
not opened when the part ends inside the header; otherwise it hands out the messages that are wholly
there, and then the clean end when nothing is left, and `truncated` when something is.  Whatever the
bytes are and whatever reads fail, a reader that has refused goes on refusing, its buffer stays within
the bound, and each message is a record of the stream whose connection is declared under a name of its
own. -/
theorem read_whole_or_refused {plan : List (Option ℕ)} {connections : List UpstreamConnection}
    {messages : List UpstreamRecord} {w : UpstreamSegmentWriter}
    (h : Wrote plan connections messages w) (objectKey : String) :
    w.inner.written = object connections messages ∧
    (∀ s : Source Byte, s.Sound → s.rest = w.inner.written →
      ∃ r, UpstreamObjectReader.open objectKey s = .ok r ∧ r.HandsOut connections messages ∧
        ∀ i, messages.length ≤ i → r.answer i = .ok none) ∧
    (∀ s : Source Byte, s.Sound → s.rest <+: w.inner.written → s.rest ≠ w.inner.written →
      (s.rest.length < (headerOf connections).length ∧
        ∃ e, UpstreamObjectReader.open objectKey s = .error e) ∨
      ∃ r k, UpstreamObjectReader.open objectKey s = .ok r ∧ k ≤ messages.length ∧
        (∀ j ≤ messages.length, object connections (messages.take j) <+: s.rest ↔ j ≤ k) ∧
        r.HandsOut connections (messages.take k) ∧
        (s.rest = object connections (messages.take k) → ∀ i, k ≤ i → r.answer i = .ok none) ∧
        (s.rest ≠ object connections (messages.take k) → ∃ what wanted got,
          r.answer k = .error (.truncated objectKey what (UInt64.ofNat k) wanted got))) ∧
    ∀ (s : Source Byte) (r : UpstreamObjectReader), UpstreamObjectReader.open objectKey s = .ok r →
      (∀ i e, r.answer i = .error e → ∀ j, i ≤ j → ∃ e', r.answer j = .error e') ∧
      s.rest = headerOf r.connections ++ r.inner.rest ∧ (r.connections.map (·.name)).Nodup ∧
      ∀ i, (r.after i).buffer.length ≤ MAX_UPSTREAM_MESSAGE_BYTES.toNat ∧
        ∀ message, r.answer i = .ok (some message) →
          ∃ (m : UpstreamRecord) (c : UpstreamConnection) (rest : List Byte),
            (r.after i).inner.rest = m.encode ++ rest ∧
            r.connections[m.connection.toNat]? = some c ∧ message = c.message m := by
  obtain ⟨-, hwritten, hdeclarable, hfits⟩ := h.spec
  refine ⟨hwritten, ?_, ?_, ?_⟩
  · intro s hsound hrest
    exact UpstreamObjectReader.open_whole objectKey hdeclarable hfits hsound (hrest.trans hwritten)
  · intro s hsound hpart _
    rw [hwritten] at hpart
    by_cases hshort : s.rest.length < (headerOf connections).length
    · have hheader : s.rest <+: headerOf connections :=
        List.prefix_of_prefix_length_le hpart (List.prefix_append _ _) hshort.le
      exact .inl ⟨hshort, UpstreamObjectReader.open_cut hheader hshort hdeclarable⟩
    · exact .inr (UpstreamObjectReader.open_part objectKey hdeclarable hfits hsound hpart
        (Nat.le_of_not_lt hshort))
  · intro s r hopen
    obtain ⟨hdeclarable, hrest, hbuffer⟩ := UpstreamObjectReader.of_open hopen
    have hbounded := UpstreamObjectReader.after_bounded (r := r)
      (by rw [hbuffer]; exact Nat.zero_le _)
    refine ⟨fun i e hi j hij ↦ UpstreamObjectReader.refused_of_answer hi hij, hrest,
      hdeclarable.names, fun i ↦ ⟨(hbounded i).2, fun message hmessage ↦ ?_⟩⟩
    rw [← (hbounded i).1]
    exact UpstreamObjectReader.answer_message hmessage

/-- The connection `m`, which the kernel stamps. -/
def soleConnection : UpstreamConnection := ⟨[0x6D], .kernelSoftware, rfl⟩

theorem read_whole_one : ∃ w, Wrote [none] [soleConnection] [⟨0, 7, [1, 2]⟩] w ∧
    ∃ r, UpstreamObjectReader.open "o" ⟨[.upTo 2, .interrupted, .upTo 0], w.inner.written⟩ = .ok r ∧
      r.HandsOut [soleConnection] [⟨0, 7, [1, 2]⟩] ∧ ∀ i, 1 ≤ i → r.answer i = .ok none := by
  have hw : Wrote [none] [soleConnection] ([] ++ [⟨0, 7, [1, 2]⟩]) _ := .accepted (.opened rfl) rfl
  exact ⟨_, hw, (read_whole_or_refused hw "o").2.1 _ (by simp [Source.Sound]) rfl⟩

end EdgeMulticast.Archive
