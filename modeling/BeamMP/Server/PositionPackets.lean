import BeamMP.Server.PidVid
import BeamMP.Server.VehicleOwnership

/-!
# Position packets

`GlobalParser` checks the vehicle that the text before the first `:` names,
`ParsePositionPacket` records the one that the text up to one byte before the
first `{` names. Both texts start at offset 3. A header holds digits and `-`
only, so the two parsers cannot tell different vehicles.
-/
namespace BeamMP

open Bytes

theorem find_offset (s : Bytes) (c : Char) (pos : ℕ) :
    find s c pos = (find (s.drop pos) c 0).map (· + pos) := by
  simp [find]

theorem getPidVid_not_mem {s : Bytes} {pv : ℤ × ℤ} (h : getPidVid s = some pv) {c : Char}
    (hdigit : isDigit c.toUInt8 = false) (hsep : c.toUInt8 ≠ '-'.toUInt8) :
    c.toUInt8 ∉ s := by
  rcases getPidVid_eq_some_iff.mp h with ⟨p, v, rfl, hp, hv⟩ | ⟨hs, -⟩
  · simp [hp.not_mem hdigit, hv.not_mem hdigit, hsep]
  · exact hs.not_mem hdigit

theorem getPidVid_nil : getPidVid [] = none := by decide

section WithoutCode

variable {Packet withoutCode : Bytes} (hdrop : Packet.drop 3 = withoutCode)
include hdrop

theorem parsePositionPacket_without_brace (h : '{'.toUInt8 ∉ withoutCode) :
    parsePositionPacket Packet = none := by
  have hfind : find (substr Packet 3 none) '{' 0 = none := by
    rw [show substr Packet 3 none = withoutCode from hdrop]
    exact find_eq_none_iff.mpr h
  unfold parsePositionPacket
  split_ifs
  · rfl
  · simp only [hfind]

theorem parsePositionPacket_at_brace {t u : Bytes} (hsplit : withoutCode = t ++ '{'.toUInt8 :: u)
    (ht : '{'.toUInt8 ∉ t) :
    parsePositionPacket Packet =
      (getPidVid t.dropLast).map fun pv => ⟨pv.1, pv.2, '{'.toUInt8 :: u⟩ := by
  subst hsplit
  have hlength : ¬Packet.length < 3 := by
    intro hshort
    rw [List.drop_eq_nil_of_le (by omega)] at hdrop
    simp at hdrop
  have hfind : find (substr Packet 3 none) '{' 0 = some t.length := by
    rw [show substr Packet 3 none = t ++ '{'.toUInt8 :: u from hdrop]
    exact find_append_cons u ht
  unfold parsePositionPacket
  simp only [if_neg hlength, hfind]
  rw [show substr Packet 3 none = t ++ '{'.toUInt8 :: u from hdrop]
  cases t using List.reverseRecOn with
  | nil => simp [getPidVid_nil]
  | append_singleton t b => simp [substr]

end WithoutCode

/-- The text after offset 3 is the header, or the header with a `:` and more behind it. -/
theorem headerField_split {Packet : Bytes} (hcode : Packet.head? = some 'Z'.toUInt8) :
    (Packet.drop 3 = headerField Packet ∧ ':'.toUInt8 ∉ headerField Packet) ∨
    ∃ u, Packet.drop 3 = headerField Packet ++ ':'.toUInt8 :: u := by
  have hpos : ¬(Packet.head? = some 'O'.toUInt8) := by
    rw [hcode]
    decide
  have hfield : headerField Packet =
      substr (Packet.drop 3) 0 (find (Packet.drop 3) ':' 0) := by
    simp only [headerField, if_neg hpos]
    rfl
  cases hfind : find (Packet.drop 3) ':' 0 with
  | none =>
    rw [hfield, hfind]
    exact Or.inl ⟨rfl, find_eq_none_iff.mp hfind⟩
  | some i =>
    obtain ⟨t, u, hsplit, -, rfl⟩ := exists_of_find_eq_some hfind
    refine Or.inr ⟨u, ?_⟩
    rw [hfield, hfind, hsplit]
    simp [substr]

section Header

variable {Packet : Bytes} {PID VID : ℤ}
  (hcode : Packet.head? = some 'Z'.toUInt8)
  (hheader : getPidVid (headerField Packet) = some (PID, VID))
include hcode hheader

theorem parsePositionPacket_of_prefix
    (hopens : ascii ":\x7b" <+: Packet.drop (3 + (headerField Packet).length)) :
    ∃ pos, find Packet '{' 3 = some pos ∧
      parsePositionPacket Packet = some ⟨PID, VID, substr Packet pos none⟩ := by
  obtain ⟨w, hw⟩ := hopens
  rw [← List.drop_drop] at hw
  rcases headerField_split hcode with ⟨hwhole, -⟩ | ⟨u, hsplit⟩
  · rw [hwhole, List.drop_length] at hw
    cases hw
  rw [hsplit, List.drop_left] at hw
  obtain rfl : '{'.toUInt8 :: w = u := (List.cons.inj hw).2
  have hbrace : '{'.toUInt8 ∉ headerField Packet ++ [':'.toUInt8] := by
    have := getPidVid_not_mem hheader (c := '{') (by decide) (by decide)
    simpa using ⟨this, by decide⟩
  have hshape : Packet.drop 3 = (headerField Packet ++ [':'.toUInt8]) ++ '{'.toUInt8 :: w := by
    simpa using hsplit
  have hfind : find Packet '{' 3 = some ((headerField Packet ++ [':'.toUInt8]).length + 3) := by
    rw [find_offset, hshape, find_append_cons w hbrace]
    rfl
  have hdata : substr Packet ((headerField Packet ++ [':'.toUInt8]).length + 3) none =
      '{'.toUInt8 :: w := by
    rw [substr, Nat.add_comm, ← List.drop_drop, hshape, List.drop_left]
  refine ⟨_, hfind, ?_⟩
  rw [parsePositionPacket_at_brace hshape rfl hbrace, hdata, List.dropLast_concat, hheader]
  rfl

/-- Without `:{` behind the header either there is no brace or the text before it goes on
behind the `:`. -/
theorem parsePositionPacket_of_not_prefix
    (hopens : ¬ascii ":\x7b" <+: Packet.drop (3 + (headerField Packet).length)) :
    parsePositionPacket Packet = none := by
  have hbrace : '{'.toUInt8 ∉ headerField Packet :=
    getPidVid_not_mem hheader (by decide) (by decide)
  rcases headerField_split hcode with ⟨hwhole, -⟩ | ⟨u, hsplit⟩
  · exact parsePositionPacket_without_brace hwhole hbrace
  by_cases hmem : '{'.toUInt8 ∈ Packet.drop 3
  · obtain ⟨t, w, ht, htbrace⟩ := List.eq_append_cons_of_mem hmem
    rw [parsePositionPacket_at_brace ht rfl htbrace, Option.map_eq_none_iff]
    -- The first `:` lies before the byte that is skipped.
    have hcolon : ':'.toUInt8 ∈ t.dropLast := by
      rcases List.append_eq_append_iff.mp (hsplit.symm.trans ht) with
        ⟨a, rfl, ha⟩ | ⟨a, ha, hrest⟩
      · cases a with
        | nil => exact absurd (List.cons.inj ha).1 (by decide)
        | cons b a =>
          obtain ⟨rfl, hu⟩ := List.cons.inj ha
          cases a with
          | nil =>
            refine (hopens ⟨w, ?_⟩).elim
            rw [← List.drop_drop, hsplit, List.drop_left, hu]
            rfl
          | cons b a => simp [List.dropLast_append_of_ne_nil]
      · cases a with
        | nil => exact absurd (List.cons.inj hrest).1 (by decide)
        | cons b a =>
          obtain ⟨rfl, -⟩ := List.cons.inj hrest
          exact (hbrace (ha ▸ by simp)).elim
    cases hread : getPidVid t.dropLast with
    | none => rfl
    | some pv =>
      exact (getPidVid_not_mem hread (c := ':') (by decide) (by decide) hcolon).elim
  · exact parsePositionPacket_without_brace rfl hmem

end Header

/-- `fmt::format("Zp:{}-{}:{}", pid, vid, DATA)`. -/
def formatPosition (pid vid : ℤ) (DATA : Bytes) : Bytes :=
  ascii "Zp:" ++ (toDecimal pid ++ ascii "-" ++ toDecimal vid) ++ ascii ":" ++ DATA

theorem parsePositionPacket_formatPosition {pid vid : ℤ} (hpid : 0 ≤ pid)
    (hpidmax : pid ≤ intMax) (hvid : 0 ≤ vid) (hvidmax : vid ≤ intMax) {DATA : Bytes}
    (hdata : DATA.head? = some '{'.toUInt8) :
    parsePositionPacket (formatPosition pid vid DATA) = some ⟨pid, vid, DATA⟩ := by
  obtain ⟨u, rfl⟩ := List.head?_eq_some_iff.mp hdata
  have hheader := getPidVid_toDecimal hpid hpidmax hvid hvidmax
  have hbrace : '{'.toUInt8 ∉ (toDecimal pid ++ ascii "-" ++ toDecimal vid) ++ [':'.toUInt8] := by
    have := getPidVid_not_mem hheader (c := '{') (by decide) (by decide)
    rw [List.mem_append]
    exact fun hmem => hmem.elim this (by decide)
  have hdrop : (formatPosition pid vid ('{'.toUInt8 :: u)).drop 3 =
      ((toDecimal pid ++ ascii "-" ++ toDecimal vid) ++ [':'.toUInt8]) ++ '{'.toUInt8 :: u := by
    simp [formatPosition, ascii]
  rw [parsePositionPacket_at_brace hdrop rfl hbrace, List.dropLast_concat, hheader]
  rfl

/-- For a packet whose header `GlobalParser` reads, `ParsePositionPacket` gets the same IDs and
the text from the first brace after offset 3, or nothing; it gets them exactly if `:{` is next to
the header. Every packet the clients format is recorded as it was sent. -/
theorem positionPacket_parses_agree :
    (∀ (Packet : Bytes) (PID VID : ℤ), Packet.head? = some 'Z'.toUInt8 →
      getPidVid (headerField Packet) = some (PID, VID) →
      (parsePositionPacket Packet = none ∨ ∃ pos, find Packet '{' 3 = some pos ∧
        parsePositionPacket Packet = some ⟨PID, VID, substr Packet pos none⟩) ∧
      ((parsePositionPacket Packet).isSome ↔
        ascii ":\x7b" <+: Packet.drop (3 + (headerField Packet).length))) ∧
    ∀ (pid vid : ℤ) (DATA : Bytes), 0 ≤ pid → pid ≤ intMax → 0 ≤ vid → vid ≤ intMax →
      DATA.head? = some '{'.toUInt8 →
      parsePositionPacket (formatPosition pid vid DATA) = some ⟨pid, vid, DATA⟩ ∧
      ∀ {κ : Type} [DecidableEq κ] (c : κ),
        ServerM.handlePosition c (formatPosition pid vid DATA) =
          ServerM.updateVehicles c (·.setCarPosition vid DATA) := by
  refine ⟨fun Packet PID VID hcode hheader => ?_,
    fun pid vid DATA hpid hpidmax hvid hvidmax hdata => ?_⟩
  · by_cases hopens : ascii ":\x7b" <+: Packet.drop (3 + (headerField Packet).length)
    · obtain ⟨pos, hpos, hparse⟩ := parsePositionPacket_of_prefix hcode hheader hopens
      exact ⟨Or.inr ⟨pos, hpos, hparse⟩, by simp [hparse, hopens]⟩
    · have hparse := parsePositionPacket_of_not_prefix hcode hheader hopens
      exact ⟨Or.inl hparse, by simp [hparse, hopens]⟩
  · have hparse := parsePositionPacket_formatPosition hpid hpidmax hvid hvidmax hdata
    refine ⟨hparse, fun c => ?_⟩
    rw [ServerM.handlePosition, hparse]

theorem positionPacket_parses_agree_example :
    ((parsePositionPacket (ascii "Zp:0-1:x\x7b\x7d")).isSome ↔
      ascii ":\x7b" <+: (ascii "Zp:0-1:x\x7b\x7d").drop
        (3 + (headerField (ascii "Zp:0-1:x\x7b\x7d")).length)) ∧
      parsePositionPacket (formatPosition 3 12 (ascii "\x7b\x7d")) =
        some ⟨3, 12, ascii "\x7b\x7d"⟩ :=
  ⟨(positionPacket_parses_agree.1 (ascii "Zp:0-1:x\x7b\x7d") 0 1 (by decide) (by decide)).2,
    (positionPacket_parses_agree.2 3 12 (ascii "\x7b\x7d") (by decide) (by decide) (by decide)
      (by decide) (by decide)).1⟩

/-- A brace before offset 3 is not where the data begin. -/
theorem parsePositionPacket_brace_in_code :
    getPidVid (headerField (ascii "Z\x7b:0-1:\x7b\x7d")) = some (0, 1) ∧
      (∃ pos, find (ascii "Z\x7b:0-1:\x7b\x7d") '{' 0 = some pos ∧
        parsePositionPacket (ascii "Z\x7b:0-1:\x7b\x7d") ≠
          some ⟨0, 1, substr (ascii "Z\x7b:0-1:\x7b\x7d") pos none⟩) ∧
      parsePositionPacket (ascii "Z\x7b:0-1:\x7b\x7d") ≠ none := by
  exact ⟨by decide, ⟨1, by decide, by decide⟩, by decide⟩

end BeamMP
