import Offside.Proofs.LineLimits

/-!
# Documents that stay to the right of a column

A document clears a column, counted from its indentation, if no line that it begins starts left of
it. The property is read off the document: the right side of a joined document is aligned with the
column where it starts, and all other lines start at the nesting of the parts that begin them. On a
page the layout then keeps every line to the right of the column, for every width.
-/
namespace Offside

open Doc

/-- Whether the first leaf of a document is a text that is not empty. -/
def Doc.startsWithText : Doc → Bool
  | .empty => false
  | .text s => !s.isEmpty
  | .nested _ d => d.startsWithText
  | .joined l _ _ => l.startsWithText
  | .stacked u _ _ => u.startsWithText
  | .grouped _ _ [] => false
  | .grouped _ _ (d :: _) => d.startsWithText

mutual

/-- Every line that the document begins starts at least `k` columns right of its indentation. -/
def Doc.Clears : Doc → Int → Prop
  | .empty, _ => True
  | .text _, _ => True
  | .nested j d, k => d.Clears (k - j)
  | .joined l _ r, k => l.Clears k ∧ l.startsWithText ∧ k ≤ l.lead + 1 ∧ r.Clears r.lead
  | .stacked u _ l, k => u.Clears k ∧ k ≤ l.lead ∧ l.Clears k
  | .grouped _ _ [], _ => True
  | .grouped _ _ (d :: ds), k => d.Clears k ∧ ClearsAll ds k

/-- The same of documents that can each begin a line. -/
def ClearsAll : List Doc → Int → Prop
  | [], _ => True
  | d :: ds, k => (k ≤ d.lead ∧ d.Clears k) ∧ ClearsAll ds k

end

theorem clearsAll_iff {ds : List Doc} {k : Int} :
    ClearsAll ds k ↔ ∀ d ∈ ds, k ≤ d.lead ∧ d.Clears k := by
  induction ds with
  | nil => simp [ClearsAll]
  | cons d ds ih => rw [ClearsAll, ih, List.forall_mem_cons]

theorem clears_grouped_cons {fill spaced : Bool} {m : Doc} {ms : List Doc} {k : Int} :
    (grouped fill spaced (m :: ms)).Clears k ↔ m.Clears k ∧ ∀ d ∈ ms, k ≤ d.lead ∧ d.Clears k := by
  rw [Clears, clearsAll_iff]

theorem Doc.Clears.mono {d : Doc} {j k : Int} (hd : d.Clears k) (hjk : j ≤ k) : d.Clears j := by
  induction d using Doc.inductOn generalizing j k with
  | empty => trivial
  | text s => trivial
  | nested n d ih => exact ih hd (by omega)
  | joined l spaced r ihl _ => exact ⟨ihl hd.1 hjk, hd.2.1, by have := hd.2.2.1; omega, hd.2.2.2⟩
  | stacked u overlap l ihu ihl => exact ⟨ihu hd.1 hjk, by have := hd.2.1; omega, ihl hd.2.2 hjk⟩
  | grouped fill spaced ds ih =>
    cases ds with
    | nil => trivial
    | cons m ms =>
      rw [clears_grouped_cons] at hd ⊢
      refine ⟨ih m (by simp) hd.1 hjk, fun e he => ⟨?_, ?_⟩⟩
      · have := (hd.2 e he).1
        omega
      · exact ih e (by simp [he]) (hd.2 e he).2 hjk

/-! ### The columns of what is written -/

/-- The column after a piece that is written at column `n`. -/
def Chunk.after (n : Nat) : Chunk → Nat
  | .newline => 0
  | chunk => n + chunk.width

/-- The width of the last line. -/
def endColumn (out : List Chunk) : Nat := out.foldl Chunk.after 0

/-- The first columns of the texts that come first on their lines. The text that goes on with the
line of which the pieces start counts only if that line is `fresh`, with nothing on it yet. -/
def startsFrom : Bool → List Chunk → List Nat
  | _, [] => []
  | _, .newline :: cs => startsFrom true cs
  | true, .spaces n :: cs => n :: startsFrom false cs
  | true, .text _ :: cs => 0 :: startsFrom false cs
  | false, .spaces _ :: cs => startsFrom false cs
  | false, .text _ :: cs => startsFrom false cs

/-- Whether the last line has nothing on it. -/
def endsFresh : Bool → List Chunk → Bool
  | fresh, [] => fresh
  | _, .newline :: cs => endsFresh true cs
  | _, .spaces _ :: cs => endsFresh false cs
  | _, .text _ :: cs => endsFresh false cs

/-- The first columns of the lines that the pieces begin, those with nothing on them left out. -/
def lineStarts (cs : List Chunk) : List Nat := startsFrom false cs

theorem startsFrom_append (fresh : Bool) (cs ds : List Chunk) :
    startsFrom fresh (cs ++ ds) = startsFrom fresh cs ++ startsFrom (endsFresh fresh cs) ds := by
  induction cs generalizing fresh with
  | nil => rfl
  | cons chunk cs ih => cases chunk <;> cases fresh <;> simp [startsFrom, endsFresh, ih]

theorem endsFresh_append (fresh : Bool) (cs ds : List Chunk) :
    endsFresh fresh (cs ++ ds) = endsFresh (endsFresh fresh cs) ds := by
  induction cs generalizing fresh with
  | nil => rfl
  | cons chunk cs ih => cases chunk <;> simp [endsFresh, ih]

/-- On a line with nothing on it the whole column is owed, and the column is not left of `b`. -/
def Ready (b : Int) (fresh : Bool) (c : Cursor) : Prop :=
  fresh = true → c.owed = c.column ∧ b ≤ c.column

/-- No line begins left of column `b`, and what follows goes on to the right of it. -/
structure Stays (b : Int) (fresh : Bool) (x : Laid) : Prop where
  starts : ∀ n ∈ startsFrom fresh x.2, b ≤ n
  owed : endsFresh fresh x.2 = true → x.1.owed = x.1.column
  column : b ≤ x.1.column

namespace Stays

variable {a b : Int} {fresh : Bool} {c : Cursor} {x : Laid}

theorem mono (hx : Stays b fresh x) (hab : a ≤ b) : Stays a fresh x :=
  ⟨fun n hn => Int.le_trans hab (hx.starts n hn), hx.owed, Int.le_trans hab hx.column⟩

theorem andThen {f : Cursor → Laid} (hx : Stays b fresh x)
    (hf : Stays b (endsFresh fresh x.2) (f x.1)) : Stays b fresh (x.andThen f) := by
  refine ⟨fun n hn => ?_, fun h => hf.owed ?_, hf.column⟩
  · rw [Laid.andThen_snd, startsFrom_append, List.mem_append] at hn
    exact hn.elim (hx.starts n) (hf.starts n)
  · rwa [Laid.andThen_snd, endsFresh_append] at h

theorem silent (hc : Ready b fresh c) (hb : b ≤ c.column) : Stays b fresh (c, []) :=
  ⟨by simp [startsFrom], fun h => (hc h).1, hb⟩

theorem advance (hc : Ready b fresh c) {n : Nat} (hb : b ≤ c.column + n) :
    Stays b fresh (c.advance n, []) := by
  refine ⟨by simp [startsFrom], fun h => ?_, hb⟩
  have := (hc h).1
  simp only [Cursor.advance]
  omega

theorem skip (hc : Ready b fresh c) (spaced : Bool) (hb : b ≤ c.column) :
    Stays b fresh (c.skip spaced, []) := by
  cases spaced with
  | false => exact silent hc hb
  | true => exact advance hc (by omega)

theorem write (hc : Ready b fresh c) {s : String} (hb : b ≤ c.column ∨ s ≠ "" ∧ b ≤ c.column + 1) :
    Stays b fresh (c.write s) := by
  by_cases hs : s = ""
  · have hcol : b ≤ c.column := hb.elim id fun h => absurd hs h.1
    simpa [Cursor.write, hs] using silent hc hcol
  · have hlen : 0 < s.length := by
      rw [Nat.pos_iff_ne_zero, ne_eq, String.length_eq_zero_iff]
      exact hs
    have hcol : b ≤ c.column + s.length := by omega
    -- the text begins its line only if nothing stood there, and then all of its column was owed
    have hstart : fresh = true → b ≤ c.owed := fun h => by have := hc h; omega
    unfold Cursor.write
    rw [if_neg (by simpa using hs)]
    split_ifs with howed
    · refine ⟨fun n hn => ?_, by simp [endsFresh], hcol⟩
      cases fresh with
      | false => simp [startsFrom] at hn
      | true =>
        obtain rfl : n = 0 := by simpa [startsFrom] using hn
        simpa [howed] using hstart rfl
    · refine ⟨fun n hn => ?_, by simp [endsFresh], hcol⟩
      cases fresh with
      | false => simp [startsFrom] at hn
      | true =>
        obtain rfl : n = c.owed := by simpa [startsFrom] using hn
        exact hstart rfl

theorem newline {target : Int} (hb : b ≤ target) : Stays b fresh (c.newline .page target) := by
  refine ⟨by simp [Cursor.newline, startsFrom], fun _ => ?_, ?_⟩ <;>
    simp only [Cursor.newline] <;> omega

theorem below (hc : Ready b fresh c) {indent : Int} (overlap : Bool) {d : Doc}
    (hb : b ≤ indent + d.lead) : Stays b fresh (c.below .page indent overlap d) := by
  unfold Cursor.below
  dsimp only
  split
  · exact advance hc (by omega)
  · exact newline hb

end Stays

section

variable {limits : Limits} {follow : Nat} {b : Int} {fresh : Bool} {c : Cursor}

variable {k indent : Int}

end

/-- Spaces before a text, if there are any. -/
def padding (n : Nat) : List Chunk := if n = 0 then [] else [.spaces n]

theorem write_chunks {s : String} (hs : s ≠ "") (c : Cursor) :
    (c.write s).2 = padding c.owed ++ [.text s] := by
  rw [Cursor.write, if_neg (by simpa using hs), padding]
  split_ifs <;> rfl

/-- A document that starts with a text writes it first, at its column. -/
theorem lay_startsWithText {d : Doc} (hd : d.startsWithText) (limits : Limits) (follow : Nat)
    (indent : Int) (fit : Fit) (c : Cursor) :
    ∃ s rest, s ≠ "" ∧ (d.lay limits follow indent fit c).2 =
      padding c.owed ++ .text s :: rest := by
  induction d using Doc.inductOn generalizing follow indent fit with
  | empty => simp [startsWithText] at hd
  | text s =>
    have hs : s ≠ "" := by simpa [startsWithText] using hd
    refine ⟨s, [], hs, ?_⟩
    exact write_chunks hs c
  | nested k d ih => exact ih hd ..
  | joined l spaced r ihl _ =>
    obtain ⟨s, rest, hs, hout⟩ := ihl hd (gap spaced + r.ahead fit follow) indent fit
    exact ⟨s, _, hs, by rw [Doc.lay, Laid.andThen_snd, hout, List.append_assoc, List.cons_append]⟩
  | stacked u overlap l ihu _ =>
    obtain ⟨s, rest, hs, hout⟩ := ihu hd 0 indent .broken
    exact ⟨s, _, hs, by rw [Doc.lay, Laid.andThen_snd, hout, List.append_assoc, List.cons_append]⟩
  | grouped fill spaced ds ih =>
    cases ds with
    | nil => simp [startsWithText] at hd
    | cons m ms =>
      rw [Doc.lay]
      split
      · obtain ⟨s, rest, hs, hout⟩ := ih m (by simp) hd (aheadAll spaced follow ms) 0 .flat
        exact ⟨s, _, hs, by rw [Laid.andThen_snd, hout, List.append_assoc, List.cons_append]⟩
      · obtain ⟨s, rest, hs, hout⟩ := ih m (by simp) hd (followLast follow ms) indent .broken
        exact ⟨s, _, hs, by rw [Laid.andThen_snd, hout, List.append_assoc, List.cons_append]⟩

end Offside
