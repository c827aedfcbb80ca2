import EdgeMulticast.Lib.Json
import EdgeMulticast.Load.Ledger

/-!
# An entry as JSON

The compact JSON of a ledger's entry, field by field in the order in which they are declared, and its
reader.  It is a codec as the ledger takes one.
-/

namespace EdgeMulticast.Load

open EdgeMulticast.Lib
open EdgeMulticast.Lib.Json
open EdgeMulticast.Rows (InstanceReset SegmentTrailer)

def DOT : Byte := 0x2e

/-- An address in the form of four numbers. -/
def addrText (addr : ℕ) : List Byte :=
  QUOTE :: (decimal (addr / 2 ^ 24) ++ DOT :: (decimal (addr / 2 ^ 16 % 256) ++
    DOT :: (decimal (addr / 2 ^ 8 % 256) ++ DOT :: (decimal (addr % 256) ++ [QUOTE]))))

def readAddr : Reader ℕ := fun bs ↦ do
  let bs ← skip [QUOTE] bs
  let (a, bs) ← number bs
  let bs ← skip [DOT] bs
  let (b, bs) ← number bs
  let bs ← skip [DOT] bs
  let (c, bs) ← number bs
  let bs ← skip [DOT] bs
  let (d, bs) ← number bs
  let bs ← skip [QUOTE] bs
  some (a * 2 ^ 24 + b * 2 ^ 16 + c * 2 ^ 8 + d, bs)

def resetText (i : InstanceReset) : List Byte :=
  BRACE :: field "source_addr" ++ (addrText i.instance.source ++
    (COMMA :: field "channel_id" ++ (decimal i.instance.channelId ++
      (COMMA :: field "dst_port" ++ (decimal i.instance.dstPort ++
        (COMMA :: field "reset_count" ++ (decimal i.resetCount ++ [UNBRACE])))))))

def readReset : Reader InstanceReset := fun bs ↦ do
  let bs ← skip (BRACE :: field "source_addr") bs
  let (source, bs) ← readAddr bs
  let bs ← skip (COMMA :: field "channel_id") bs
  let (channelId, bs) ← number bs
  let bs ← skip (COMMA :: field "dst_port") bs
  let (dstPort, bs) ← number bs
  let bs ← skip (COMMA :: field "reset_count") bs
  let (resetCount, bs) ← number bs
  let bs ← skip [UNBRACE] bs
  some (⟨⟨source, channelId, dstPort⟩, resetCount⟩, bs)

def trailerText (t : SegmentTrailer) : List Byte :=
  BRACE :: field "segment_seq" ++ (decimal t.segmentSeq ++
    (COMMA :: field "interface_drop_total" ++ (decimal t.interfaceDropTotal ++
      (COMMA :: field "instances" ++ (arrayText resetText t.instances ++ [UNBRACE])))))

def readTrailer : Reader SegmentTrailer := fun bs ↦ do
  let bs ← skip (BRACE :: field "segment_seq") bs
  let (segmentSeq, bs) ← number bs
  let bs ← skip (COMMA :: field "interface_drop_total") bs
  let (interfaceDropTotal, bs) ← number bs
  let bs ← skip (COMMA :: field "instances") bs
  let (instances, bs) ← array readReset bs
  let bs ← skip [UNBRACE] bs
  some (⟨segmentSeq, interfaceDropTotal, instances⟩, bs)

def entryText (e : Entry) : List Byte :=
  BRACE :: field "object_key" ++ (stringText e.objectKey ++
    (COMMA :: field "object_sha256" ++ (stringText e.objectSha256 ++
      (COMMA :: field "loaded_at_ns" ++ (decimal e.loadedAtNs ++
        (COMMA :: field "trailer" ++ (trailerText e.trailer ++
          (COMMA :: field "feed" ++ (stringText e.feed ++ [UNBRACE])))))))))

def readEntry : Reader Entry := fun bs ↦ do
  let bs ← skip (BRACE :: field "object_key") bs
  let (objectKey, bs) ← string bs
  let bs ← skip (COMMA :: field "object_sha256") bs
  let (objectSha256, bs) ← string bs
  let bs ← skip (COMMA :: field "loaded_at_ns") bs
  let (loadedAtNs, bs) ← number bs
  let bs ← skip (COMMA :: field "trailer") bs
  let (trailer, bs) ← readTrailer bs
  let bs ← skip (COMMA :: field "feed") bs
  let (feed, bs) ← string bs
  let bs ← skip [UNBRACE] bs
  some (⟨objectKey, objectSha256, loadedAtNs, trailer, feed⟩, bs)

/-! ## What is read back -/

theorem readAddr_addrText (addr : ℕ) (rest : List Byte) :
    readAddr (addrText addr ++ rest) = some (addr, rest) := by
  have hdigit : isDigit DOT = false ∧ isDigit QUOTE = false := by decide
  have hskip (b : Byte) (bs : List Byte) : skip [b] (b :: bs) = some bs := skip_append [b] bs
  simp only [addrText, readAddr, List.cons_append, List.append_assoc, List.nil_append, hskip,
    number_decimal _ hdigit.1, number_decimal _ hdigit.2, Option.bind_eq_bind, Option.bind_some]
  have hsum : addr / 2 ^ 24 * 2 ^ 24 + addr / 2 ^ 16 % 256 * 2 ^ 16 + addr / 2 ^ 8 % 256 * 2 ^ 8 +
      addr % 256 = addr := by omega
  rw [hsum]

theorem readReset_resetText (i : InstanceReset) (rest : List Byte) :
    readReset (resetText i ++ rest) = some (i, rest) := by
  have hdigit : isDigit COMMA = false ∧ isDigit UNBRACE = false := by decide
  have hskip (b : Byte) (bs : List Byte) : skip [b] (b :: bs) = some bs := skip_append [b] bs
  simp only [resetText, readReset, List.cons_append, List.append_assoc, List.nil_append, hskip,
    skip_cons, readAddr_addrText, number_decimal _ hdigit.1, number_decimal _ hdigit.2,
    Option.bind_eq_bind, Option.bind_some]

theorem readTrailer_trailerText (t : SegmentTrailer) (rest : List Byte) :
    readTrailer (trailerText t ++ rest) = some (t, rest) := by
  have hdigit : isDigit COMMA = false := by decide
  have hskip (b : Byte) (bs : List Byte) : skip [b] (b :: bs) = some bs := skip_append [b] bs
  have harray (rest : List Byte) : array readReset (arrayText resetText t.instances ++ rest) =
      some (t.instances, rest) :=
    array_arrayText (fun i b rest _ ↦ readReset_resetText i (b :: rest))
      (fun i ↦ by simp [resetText, BRACE, CLOSE]) (fun i ↦ by simp [resetText]) t.instances rest
  simp only [trailerText, readTrailer, List.cons_append, List.append_assoc, List.nil_append, hskip,
    skip_cons, harray, number_decimal _ hdigit, Option.bind_eq_bind, Option.bind_some]

theorem readEntry_entryText (e : Entry) (rest : List Byte) :
    readEntry (entryText e ++ rest) = some (e, rest) := by
  have hdigit : isDigit COMMA = false := by decide
  have hskip (b : Byte) (bs : List Byte) : skip [b] (b :: bs) = some bs := skip_append [b] bs
  simp only [entryText, readEntry, List.cons_append, List.append_assoc, List.nil_append, hskip,
    skip_cons, string_stringText, readTrailer_trailerText, number_decimal _ hdigit,
    Option.bind_eq_bind, Option.bind_some]

/-! ## A line -/

theorem printable_entryText (e : Entry) : Printable (entryText e) := by
  have hone {x : Byte} (hx : 0x20 ≤ x ∧ x < 0x7f) : Printable [x] := by
    intro y hy
    cases List.mem_singleton.mp hy
    exact hx
  have hbytes {text : List Byte} (h : text.all fun x ↦ 0x20 ≤ x ∧ x < 0x7f) : Printable text :=
    fun x hx ↦ of_decide_eq_true (List.all_eq_true.mp h x hx)
  have haddr (addr : ℕ) : Printable (addrText addr) :=
    (hone (by decide)).append ((printable_decimal _).append ((hone (by decide)).append
      ((printable_decimal _).append ((hone (by decide)).append ((printable_decimal _).append
        ((hone (by decide)).append ((printable_decimal _).append (hone (by decide)))))))))
  have hreset (i : InstanceReset) : Printable (resetText i) :=
    (hbytes (by decide)).append ((haddr _).append ((hbytes (by decide)).append
      ((printable_decimal _).append ((hbytes (by decide)).append ((printable_decimal _).append
        ((hbytes (by decide)).append ((printable_decimal _).append (hone (by decide)))))))))
  have htrailer (t : SegmentTrailer) : Printable (trailerText t) :=
    (hbytes (by decide)).append ((printable_decimal _).append ((hbytes (by decide)).append
      ((printable_decimal _).append ((hbytes (by decide)).append
        (((hone (by decide)).append (printable_itemsText hreset _)).append (hone (by decide)))))))
  exact (hbytes (by decide)).append ((printable_stringText _).append ((hbytes (by decide)).append
    ((printable_stringText _).append ((hbytes (by decide)).append ((printable_decimal _).append
      ((hbytes (by decide)).append ((htrailer _).append ((hbytes (by decide)).append
        ((printable_stringText _).append (hone (by decide)))))))))))

/-- Entries as lines of JSON. -/
def entryJson : LineCodec Entry where
  write := entryText
  read text := (readEntry text).bind fun (e, rest) ↦ if rest = [] then some e else none
  read_write e := by
    have h := readEntry_entryText e []
    rw [List.append_nil] at h
    rw [h]
    rfl
  isUtf8_write e := (printable_entryText e).isUtf8
  newline_free e := (printable_entryText e).notMem (by decide)
  return_free e := (printable_entryText e).notMem (by decide)

end EdgeMulticast.Load
