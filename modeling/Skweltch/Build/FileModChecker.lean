import Skweltch.Lib.NumText
import Skweltch.Lib.Readable
import Skweltch.Msg

/-!
# Skweltch — the digest of a directory

`doDirCrc` of `build/FileModChecker.cpp`: of every C++ file the name and the modification time are
fed to the CRC, directory by directory, in the order in which `directory_iterator` enumerates them.
Neither the order nor the directories are made up for: two scans feed the same bytes exactly if
they come to the same names and times in the same order (`scan_iff`).
-/

namespace Skweltch

open NumText Readable

/-- What `directory_iterator` enumerates. A directory has its entries in the order of the
enumeration; a file name is not empty and has neither `'/'` nor a NUL in it. -/
inductive DirEntry where
  | file (name : Str) (lastWriteTime : Int)
  | dir (name : Str) (entries : List DirEntry)
deriving Repr

/-- A C++ file, with its directory relative to the root. -/
structure SourceFile where
  dir : List Str
  name : Str
  lastWriteTime : Int
deriving DecidableEq, Repr

/-- What is fed of a file. -/
def SourceFile.fed (f : SourceFile) : Str × Int := (f.name, f.lastWriteTime)

namespace FileModChecker

/-- `path::extension`: from the last dot on. -/
def extension (name : Str) : Str :=
  if name = ".".toList ∨ name = "..".toList ∨ '.' ∉ name then []
  else '.' :: (name.reverse.takeWhile (· ≠ '.')).reverse

def isSource (name : Str) : Bool := extension name = ".cpp".toList ∨ extension name = ".hpp".toList

/-- A path is inserted into a stream between quotes, with `'&'` in front of a quote and of
itself. -/
def text (f : Str × Int) : Str := quoted '"' '&' f.1 ++ decText f.2

def bufTooLarge : Str := "buf too large for CRC.".toList

mutual

/-- `doDirCrc`, and what is done for a file: the bytes fed to the CRC, or what is thrown. -/
def doDirCrc (crc : Str) : DirEntry → Except Str Str
  -- no C++ files are expected under bin
  | .dir name entries => if name = "bin".toList then .ok crc else iterate crc entries
  | .file name lastWriteTime =>
    if isSource name then
      -- the directory of the file is no part of what is fed
      let s := text (name, lastWriteTime)
      if s.length ≥ 64 then .error bufTooLarge else .ok (crc ++ s)
    else .ok crc

def iterate (crc : Str) : List DirEntry → Except Str Str
  | [] => .ok crc
  | i :: is => do
    let crc ← doDirCrc crc i
    iterate crc is

end

/-- `getCrc`, without the checksum that is made of the bytes. -/
def scan (name : Str) (entries : List DirEntry) : Except Str Str := doDirCrc [] (.dir name entries)

mutual

/-- The C++ files outside directories named bin. -/
def sourcesAt (dir : List Str) : DirEntry → List SourceFile
  | .dir name entries => if name = "bin".toList then [] else sourcesIn (dir ++ [name]) entries
  | .file name lastWriteTime =>
    if isSource name then [{ dir := dir, name := name, lastWriteTime := lastWriteTime }] else []

def sourcesIn (dir : List Str) : List DirEntry → List SourceFile
  | [] => []
  | i :: is => sourcesAt dir i ++ sourcesIn dir is

end

/-- The files a scan comes to, in its order. -/
def sources (name : Str) (entries : List DirEntry) : List SourceFile :=
  if name = "bin".toList then [] else sourcesIn [] entries

/-! ## Scans, file by file

A scan feeds the digest file by file, depth first, and stops at a name that does not fit into the
buffer. -/

/-- Feed files in order. -/
def feed (crc : Str) : List (Str × Int) → Except Str Str
  | [] => .ok crc
  | f :: fs => if (text f).length ≥ 64 then .error bufTooLarge else feed (crc ++ text f) fs

/-- Files that are fed one behind the other. -/
theorem feed_append (crc : Str) (fs gs : List (Str × Int)) :
    feed crc (fs ++ gs) = (feed crc fs).bind fun crc => feed crc gs := by
  induction fs generalizing crc with
  | nil => rfl
  | cons f fs ih =>
    rw [List.cons_append, feed, feed]
    split
    · rfl
    · exact ih _

mutual

/-- **A scan feeds its C++ files in order**, whatever the directory. -/
theorem doDirCrc_eq (dir : List Str) (crc : Str) (i : DirEntry) :
    doDirCrc crc i = feed crc ((sourcesAt dir i).map SourceFile.fed) := by
  match i with
  | .dir name entries =>
    rw [doDirCrc, sourcesAt]
    split
    · rfl
    · exact iterate_eq (dir ++ [name]) crc entries
  | .file name lastWriteTime =>
    rw [doDirCrc, sourcesAt]
    split
    · show _ = feed crc [(name, lastWriteTime)]
      rw [feed, feed]
    · rfl

/-- Iterating through a directory feeds its sources, depth first. -/
theorem iterate_eq (dir : List Str) (crc : Str) (is : List DirEntry) :
    iterate crc is = feed crc ((sourcesIn dir is).map SourceFile.fed) := by
  match is with
  | [] => rfl
  | i :: is =>
    -- what is thrown for one entry ends the loop, as it ends the feeding
    rw [sourcesIn, List.map_append, feed_append, ← doDirCrc_eq dir crc i]
    have hrest := fun crc => iterate_eq dir crc is
    simp only [iterate, bind, hrest]

end

theorem scan_eq (name : Str) (entries : List DirEntry) :
    scan name entries = feed [] ((sources name entries).map SourceFile.fed) := by
  rw [scan, doDirCrc, sources]
  split
  · rfl
  · exact iterate_eq [] [] entries

/-- The buffer has room for what is fed of the file. -/
def Fits (f : Str × Int) : Prop := (text f).length < 64

/-- What is fed are the texts of the files, if all of them fit into the buffer. -/
theorem feed_eq_ok_iff (crc b : Str) (fs : List (Str × Int)) :
    feed crc fs = .ok b ↔ (∀ f ∈ fs, Fits f) ∧ b = crc ++ fs.flatMap text := by
  induction fs generalizing crc with
  | nil =>
    rw [feed, List.flatMap_nil, List.append_nil, Except.ok.injEq]
    exact ⟨fun h => ⟨by simp, h.symm⟩, fun h => h.2.symm⟩
  | cons f fs ih =>
    rw [feed, List.forall_mem_cons, Fits]
    by_cases hf : (text f).length ≥ 64
    · rw [if_pos hf]
      exact iff_of_false (by simp) fun h => absurd h.1.1 (by omega)
    · rw [if_neg hf, ih, List.flatMap_cons, List.append_assoc]
      have hfits : (text f).length < 64 := by omega
      simp only [hfits, true_and]

/-! ## Reading the bytes back

The digest is fed a name in quotes and a time for each file. As no name has a quote in it, the files
are read back from the bytes. -/

theorem quote_not_mem_decText (n : Int) : '"' ∉ decText n := by
  intro h
  rcases mem_decText h with h | h
  · exact absurd h (by decide)
  · exact absurd h (by decide)

/-- The bytes of a scan can be read in one way only. -/
theorem flatMap_text_injective : Function.Injective (List.flatMap text) := by
  -- the quotes around a name can be told from those in it, and a time has none
  have htext : ReadableBefore (AtDelim '"') text :=
    (readableBefore_quoted (by decide)).pair
      (readableBefore_of_not_mem decText_injective quote_not_mem_decText)
  have hquote : ∀ f x, AtDelim '"' (text f ++ x) := by
    intro f x c hc
    rw [text, quoted, List.cons_append, List.cons_append, List.head?_cons] at hc
    exact (Option.some.inj hc).symm
  exact htext.flatMap_injective (fun c hc => by cases hc) hquote fun f => List.cons_ne_nil _ _

/-- **What a scan sees.** It completes exactly if there is room in the buffer for the name and the
time of each C++ file, and two scans that complete feed the same bytes exactly if they come to the
same names and times in the same order. -/
theorem scan_iff (name name' : Str) (entries entries' : List DirEntry) :
    ((∃ b, scan name entries = .ok b) ↔ ∀ f ∈ sources name entries, Fits f.fed) ∧
    ∀ b b', scan name entries = .ok b → scan name' entries' = .ok b' →
      (b = b' ↔ (sources name entries).map SourceFile.fed =
        (sources name' entries').map SourceFile.fed) := by
  simp only [scan_eq, feed_eq_ok_iff]
  refine ⟨by simp, ?_⟩
  rintro b b' ⟨-, rfl⟩ ⟨-, rfl⟩
  rw [List.nil_append, List.nil_append, flatMap_text_injective.eq_iff]

def exampleEntry (name : String) (lastWriteTime : Int) : DirEntry :=
  .file name.toList lastWriteTime

/-- Two files in two orders. -/
theorem scan_two_orders :
    "\"a.cpp\"1\"b.hpp\"2".toList = "\"b.hpp\"2\"a.cpp\"1".toList ↔
      (sources "src".toList [exampleEntry "a.cpp" 1, exampleEntry "b.hpp" 2]).map SourceFile.fed =
        (sources "src".toList [exampleEntry "b.hpp" 2, exampleEntry "a.cpp" 1]).map
          SourceFile.fed :=
  (scan_iff "src".toList "src".toList [exampleEntry "a.cpp" 1, exampleEntry "b.hpp" 2]
    [exampleEntry "b.hpp" 2, exampleEntry "a.cpp" 1]).2 _ _ (by rfl) (by rfl)

/-- Both scans complete, and feed the same bytes exactly if they come to the same set of files. -/
def SeesTree (name name' : Str) (entries entries' : List DirEntry) : Prop :=
  ∃ b b', scan name entries = .ok b ∧ scan name' entries' = .ok b' ∧
    (b = b' ↔ ∀ f, f ∈ sources name entries ↔ f ∈ sources name' entries')

/-- The same files in another order, files that are moved to another directory, and a name for
which there is no room in the buffer. -/
theorem scan_not_seesTree :
    ¬ SeesTree "src".toList "src".toList [exampleEntry "a.cpp" 1, exampleEntry "b.hpp" 2]
        [exampleEntry "b.hpp" 2, exampleEntry "a.cpp" 1] ∧
      ¬ SeesTree "src".toList "src".toList [.dir "x".toList [exampleEntry "a.cpp" 1]]
        [.dir "y".toList [exampleEntry "a.cpp" 1]] ∧
      ¬ SeesTree "src".toList "src".toList
        [.file (List.replicate 60 'a' ++ ".cpp".toList) 1]
        [.file (List.replicate 60 'a' ++ ".cpp".toList) 1] := by
  refine ⟨?_, ?_, ?_⟩
  · rintro ⟨b, b', hb, hb', heq⟩
    have hbytes : b = "\"a.cpp\"1\"b.hpp\"2".toList := (Except.ok.inj hb).symm
    have hbytes' : b' = "\"b.hpp\"2\"a.cpp\"1".toList := (Except.ok.inj hb').symm
    have hfiles : ∀ f, f ∈ sources "src".toList [exampleEntry "a.cpp" 1, exampleEntry "b.hpp" 2] ↔
        f ∈ sources "src".toList [exampleEntry "b.hpp" 2, exampleEntry "a.cpp" 1] := by
      intro f
      exact (List.Perm.swap _ _ []).mem_iff
    have := heq.mpr hfiles
    rw [hbytes, hbytes'] at this
    exact absurd this (by decide)
  · rintro ⟨b, b', hb, hb', heq⟩
    have hbytes : b = b' := (Except.ok.inj hb).symm.trans (Except.ok.inj hb')
    have hfile := (heq.mp hbytes ⟨["x".toList], "a.cpp".toList, 1⟩).mp (by decide)
    exact absurd hfile (by decide)
  · rintro ⟨b, b', hb, -⟩
    have hthrows : scan "src".toList [.file (List.replicate 60 'a' ++ ".cpp".toList) 1] =
        .error bufTooLarge := by rfl
    rw [hthrows] at hb
    cases hb

end FileModChecker

end Skweltch
