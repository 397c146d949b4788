import DoubleEntry.Proofs.Chain
import DoubleEntry.Proofs.Keys
import DoubleEntry.Proofs.Rounds

/-! # How many files are open at once

Reading gives up when more files are open than it may have. Where every chain of
files is shorter than that, the limit has no bearing on what is read. Chains are
short if all files have ranks that go down from a file to those that it asks for.
Among texts in memory no file can then come back on a chain, so the number of texts
is limit enough.
-/

namespace DoubleEntry

/-! ## Reading with other limits -/

theorem foldlM_congr {α β : Type} {f g : β → α → Traced β} {l : List α}
    (h : ∀ a ∈ l, ∀ b, f b a = g b a) (init : β) : l.foldlM f init = l.foldlM g init := by
  induction l generalizing init with
  | nil => rfl
  | cons a l ih =>
      obtain ⟨ha, hl⟩ := List.forall_mem_cons.1 h
      rw [List.foldlM_cons, List.foldlM_cons, ha init]
      exact congrArg _ (funext fun b => ih hl b)

namespace Statement

variable {read other : Visit → Books → Traced Books} {file : String} {scope : Scope}
  {p : Progress} {s : Statement}

theorem run_congr (h : ∀ path, s.path? = some path → ∀ asker scope books,
    read ⟨Path.resolve file path, asker, scope⟩ books =
      other ⟨Path.resolve file path, asker, scope⟩ books) :
    run read file scope p s = run other file scope p s := by
  cases s with
  | inclusion path span => simp only [run, h path rfl]
  | journal path span => simp only [run, h path rfl]
  | _ => rfl

end Statement

theorem Progress.kind_of_enter {p : Progress} {first : Span} {legs : List Leg} {stop : Position}
    {fault : Fault} (h : p.enter first legs stop = .error fault) : fault.cause.kind ≠ .io := by
  cases hwait : p.awaiting with
  | none =>
      simp only [enter, awaited, hwait] at h
      cases h
      exact FaultKind.noConfusion
  | some waiting =>
      rw [enter_eq_map hwait, map_eq_error] at h
      obtain ⟨pending, entry, -, happend⟩ := exists_of_foldlM_eq_error h
      exact (Entry.span_of_append happend).2

theorem Statement.fault_of_run {read : Visit → Books → Traced Books} {file : String}
    {scope : Scope} {p : Progress} {s : Statement} {fault : Fault}
    (h : (run read file scope p s).result = .error fault) :
    fault.cause.kind ≠ .io ∨ ∃ path, s.path? = some path ∧ ∃ asker inner books,
      (read ⟨Path.resolve file path, asker, inner⟩ books).result = .error fault := by
  cases s with
  | date text span => exact .inl (Progress.textual_of_await h).kind_ne_io
  | postings first legs stop => exact .inl (Progress.kind_of_enter h)
  | openLedger keyword legs stop =>
      rw [result_run_openLedger] at h
      rcases Progress.kind_of_openChart h with htextual | hkind
      · exact .inl htextual.kind_ne_io
      · exact .inl (by rw [hkind]; exact FaultKind.noConfusion)
  | useAccount account span => cases h
  | inclusion path span =>
      rw [result_run_inclusion, map_eq_error] at h
      exact .inr ⟨path, rfl, _, _, _, h⟩
  | journal path span =>
      rw [result_run_journal, map_eq_error] at h
      exact .inr ⟨path, rfl, _, _, _, h⟩

namespace Files

/-- Every chain of files from this one has fewer steps than `depth`. -/
def Within (files : Files) (depth : Nat) (path : String) : Prop :=
  ∀ paths, files.Leads path paths → paths.length < depth

variable {files : Files} {depth : Nat} {file path : String}

theorem Within.asked (h : files.Within (depth + 1) file) (hasks : files.AsksFor file path) :
    files.Within depth (Path.resolve file path) :=
  fun paths hleads => Nat.lt_of_succ_lt_succ (h (path :: paths) ⟨hasks, hleads⟩)

theorem not_within_zero : ¬ files.Within 0 file := fun h => Nat.not_lt_zero _ (h [] trivial)

end Files

namespace Books

variable {files : Files}

/-- With any two limits that are long enough for all chains the same is read, and the
    same is announced. -/
theorem read_eq_of_within {depth other : Nat} {visit : Visit}
    (hdepth : files.Within depth visit.path) (hother : files.Within other visit.path)
    (books : Books) : read files depth visit books = read files other visit books := by
  induction depth generalizing other visit books with
  | zero => exact absurd hdepth Files.not_within_zero
  | succ depth ih =>
      cases other with
      | zero => exact absurd hother Files.not_within_zero
      | succ other =>
          unfold read
          cases htext : files.read visit.path with
          | error reason => rfl
          | ok text =>
              have hrun : (Script.ofText visit.path text).run (read files depth) visit.path
                  visit.scope books = (Script.ofText visit.path text).run (read files other)
                  visit.path visit.scope books := by
                unfold Script.run
                rw [foldlM_congr fun s hs p =>
                  Statement.run_congr fun path hpath asker scope inner => ?_]
                have hasks : files.AsksFor visit.path path :=
                  ⟨_, ⟨text, htext, rfl⟩, Script.askFor_of_mem hs hpath⟩
                exact ih (hdepth.asked hasks) (hother.asked hasks) inner
              simp only [hrun]

theorem not_nestedTooDeep {depth : Nat} {visit : Visit} {books : Books} {fault : Fault}
    (hdepth : files.Within depth visit.path)
    (h : (read files depth visit books).result = .error fault) (path : String) :
    fault.cause ≠ .nestedTooDeep path := by
  have other (hkind : fault.cause.kind ≠ .io) : fault.cause ≠ .nestedTooDeep path :=
    fun hcause => hkind (by rw [hcause]; rfl)
  induction depth generalizing visit books with
  | zero => exact absurd hdepth Files.not_within_zero
  | succ depth ih =>
      rw [result_read_succ] at h
      split at h
      · cases h
        exact Cause.noConfusion
      · next text htext =>
        rw [Script.result_run] at h
        cases hrun : (Script.ofText visit.path text).statements.foldlM (fun p s =>
            (Statement.run (read files depth) visit.path visit.scope p s).result)
            (Progress.begin books) with
        | error earlier =>
            rw [hrun] at h
            cases h
            obtain ⟨p, s, hs, hstep⟩ := exists_of_foldlM_eq_error hrun
            rcases Statement.fault_of_run hstep with hkind | ⟨name, hname, _, _, _, hread⟩
            · exact other hkind
            · exact ih (hdepth.asked ⟨_, ⟨text, htext, rfl⟩, Script.askFor_of_mem hs hname⟩) hread
        | ok p =>
            rw [hrun] at h
            dsimp only [Except.bind] at h
            split at h
            · next flaw hflaw =>
              cases h
              exact other (Progress.textual_faultOf (Script.textual_of_read hflaw)).kind_ne_io
            · exact other (Progress.textual_of_finish h).kind_ne_io

theorem read_nesting (files : Files) (nesting depth : Nat) :
    read { files with nesting := nesting } depth = read files depth := by
  induction depth with
  | zero => rfl
  | succ depth ih =>
      funext visit books
      unfold read
      rw [ih]

end Books

/-! ## Ranks -/

namespace Files

/-- The ranks of files go down from a file to each that it asks for. -/
def Ranked (files : Files) (rank : String → Nat) : Prop :=
  ∀ file path, files.AsksFor file path → rank (Path.resolve file path) < rank file

variable {files : Files} {rank : String → Nat} {file root : String} {paths : List String}

theorem Ranked.rank_along (ranked : files.Ranked rank) (h : files.Leads file paths) :
    rank (Path.along file paths) + paths.length ≤ rank file := by
  induction paths generalizing file with
  | nil => exact Nat.le_refl _
  | cons path paths ih =>
      have hstep := ranked file path h.1
      have hrest := ih h.2
      rw [List.length_cons]
      change rank (Path.along (Path.resolve file path) paths) + (paths.length + 1) ≤ rank file
      omega

theorem Ranked.within (ranked : files.Ranked rank) {depth : Nat} (h : rank root < depth) :
    files.Within depth root := by
  intro paths hleads
  have := ranked.rank_along hleads
  omega

end Files

/-! ## Texts in memory -/

/-- The files of a chain that ask for the next one. -/
def Path.stations : String → List String → List String
  | _, [] => []
  | file, path :: rest => file :: stations (resolve file path) rest

theorem Path.length_stations (file : String) (paths : List String) :
    (stations file paths).length = paths.length := by
  induction paths generalizing file with
  | nil => rfl
  | cons path paths ih => rw [stations, List.length_cons, ih, List.length_cons]

namespace Files

variable {texts : List (String × String)} {rank : String → Nat} {file other root : String}
  {paths : List String}

theorem Leads.exists_of_mem_stations {files : Files} (h : files.Leads file paths)
    (hother : other ∈ Path.stations file paths) :
    files.Chained file other ∧ ∃ path, files.AsksFor other path := by
  induction paths generalizing file with
  | nil => cases hother
  | cons path paths ih =>
      rcases List.mem_cons.1 hother with rfl | hother
      · exact ⟨chained_root, path, h.1⟩
      · obtain ⟨⟨before, hleads, hend⟩, hasks⟩ := ih h.2 hother
        exact ⟨⟨path :: before, ⟨h.1, hleads⟩, hend⟩, hasks⟩

theorem AsksFor.of_key_eq {path : String} (hkey : Path.key file.toList = Path.key other.toList)
    (h : (inMemory texts).AsksFor file path) : (inMemory texts).AsksFor other path := by
  obtain ⟨text, ⟨content, hcontent, htext⟩, hasks⟩ := h
  refine ⟨text, ⟨content, ?_, htext⟩, hasks⟩
  have hfind : find? texts file = find? texts other := by
    unfold find?
    rw [hkey]
  simp only [inMemory] at hcontent ⊢
  rw [← hfind]
  split at hcontent
  · exact hcontent
  · cases hcontent

theorem Leads.of_key_eq (hkey : Path.key file.toList = Path.key other.toList)
    (h : (inMemory texts).Leads file paths) :
    (inMemory texts).Leads other paths ∧
      Path.key (Path.along file paths).toList = Path.key (Path.along other paths).toList := by
  induction paths generalizing file other with
  | nil => exact ⟨trivial, hkey⟩
  | cons path paths ih =>
      obtain ⟨hrest, hend⟩ := ih (Path.key_resolve_congr hkey path) h.2
      exact ⟨⟨h.1.of_key_eq hkey, hrest⟩, hend⟩

/-- With ranks no chain comes back to a file. The same chain could be followed again
    from there, and again, but each time with a smaller rank. -/
theorem Ranked.key_along_ne (ranked : (inMemory texts).Ranked rank)
    (h : (inMemory texts).Leads file paths) (hne : paths ≠ []) :
    Path.key (Path.along file paths).toList ≠ Path.key file.toList := by
  intro hback
  have hless : rank (Path.along file paths) < rank file := by
    have := ranked.rank_along h
    have := List.length_pos_iff.2 hne
    omega
  induction hrank : rank file using Nat.strongRecOn generalizing file with
  | ind n ih =>
      obtain ⟨hagain, hend⟩ := h.of_key_eq hback.symm
      have hdown : rank (Path.along (Path.along file paths) paths) <
          rank (Path.along file paths) := by
        have := ranked.rank_along hagain
        have := List.length_pos_iff.2 hne
        omega
      exact ih _ (hrank ▸ hless) hagain hend.symm hdown rfl

theorem Ranked.nodup_stations (ranked : (inMemory texts).Ranked rank)
    (h : (inMemory texts).Leads file paths) :
    ((Path.stations file paths).map fun other => Path.key other.toList).Nodup := by
  induction paths generalizing file with
  | nil => exact List.nodup_nil
  | cons path paths ih =>
      refine List.nodup_cons.2 ⟨fun hmem => ?_, ih h.2⟩
      obtain ⟨other, hother, hkey⟩ := List.mem_map.1 hmem
      obtain ⟨⟨before, hleads, rfl⟩, -⟩ := h.2.exists_of_mem_stations hother
      have hback : (inMemory texts).Leads file (path :: before) := ⟨h.1, hleads⟩
      exact ranked.key_along_ne hback (List.cons_ne_nil _ _) hkey

/-- A chain has no more steps than there are texts. -/
theorem Ranked.length_le_texts (ranked : (inMemory texts).Ranked rank)
    (h : (inMemory texts).Leads file paths) : paths.length ≤ texts.length := by
  have hsubset : ((Path.stations file paths).map fun other => Path.key other.toList) ⊆
      texts.map fun named => Path.key named.1.toList := by
    intro key hkey
    obtain ⟨other, hother, rfl⟩ := List.mem_map.1 hkey
    obtain ⟨-, path, text, ⟨content, hcontent, -⟩, -⟩ := h.exists_of_mem_stations hother
    simp only [inMemory, find?] at hcontent
    split at hcontent
    · next found hfound =>
      obtain ⟨named, hnamed, -⟩ := Option.map_eq_some_iff.1 hfound
      have hsame := List.find?_some hnamed
      have hmem := List.mem_reverse.1 (List.mem_of_find?_eq_some hnamed)
      exact List.mem_map.2 ⟨named, hmem, of_decide_eq_true hsame⟩
    · cases hcontent
  have hle := (List.subperm_of_subset (ranked.nodup_stations h) hsubset).length_le
  rwa [List.length_map, List.length_map, Path.length_stations] at hle

end Files

namespace Draft

theorem read_of_within {files : Files} {depth : Nat} {root : String}
    (hdepth : files.Within depth root) (hnesting : files.Within files.nesting root) :
    read { files with nesting := depth } root = read files root := by
  unfold read
  rw [Books.read_nesting, Books.read_eq_of_within hdepth hnesting]

/-- Each round of reading a file gets ahead among its tokens, and ends at a malformed
    one. So a file has no more rounds than tokens, and texts in memory with ranks are
    read with at most one file more open than the rank of the root: more room changes
    nothing, and reading never gives up for lack of room. -/
theorem read_ranked :
    (∀ (file : String) (text : List Char) (passed : List Token) (c : Cursor),
      (Cursor.ofText file text).Passes passed c →
      (∀ s behind, Statement.read c = .ok (s, behind) →
        c.Advances text behind ∧ behind.tokens.length < c.tokens.length) ∧
      (∀ leg behind, Leg.read c = .ok (leg, behind) →
        c.Advances text behind ∧ behind.tokens.length < c.tokens.length) ∧
      (c.lookahead = some .error → (∃ flaw, Statement.read c = .error flaw) ∧
        (∃ fault, Leg.read c = .error fault) ∧ Leg.readRun c = .ok ([], c))) ∧
    (∀ file text : String,
      (Script.ofText file text).statements.length ≤ (Token.ofString text).length ∧
      ((∃ t ∈ Token.ofString text, t.kind = .error) →
        ∃ flaw, (Script.ofText file text).ending = .error flaw)) ∧
    ∀ texts rank root, (Files.inMemory texts).Ranked rank →
      (∀ paths, (Files.inMemory texts).Leads root paths → paths.length ≤ rank root) ∧
      (∀ depth, rank root < depth →
        read { Files.inMemory texts with nesting := depth } root =
          read (Files.inMemory texts) root) ∧
      ∀ fault, (read (Files.inMemory texts) root).result = .error fault →
        ∀ path, fault.cause ≠ .nestedTooDeep path := by
  refine ⟨fun file text passed c h => ?_, Script.rounds_end, fun texts rank root ranked => ?_⟩
  · obtain ⟨hstatement, hleg, hstop⟩ := Script.rounds_advance h
    exact ⟨fun s behind hread => ⟨hstatement s behind hread, (hstatement s behind hread).shorter⟩,
      fun leg behind hread => ⟨hleg leg behind hread, (hleg leg behind hread).shorter⟩, hstop⟩
  · have hnesting : (Files.inMemory texts).Within (Files.inMemory texts).nesting root := by
      intro paths hleads
      have hle := ranked.length_le_texts hleads
      have hlimit : (Files.inMemory texts).nesting = 2 * (texts.length + 1) := rfl
      omega
    refine ⟨fun paths hleads => Nat.le_of_add_left_le (ranked.rank_along hleads),
      fun depth hdepth => read_of_within (ranked.within hdepth) hnesting, fun fault h => ?_⟩
    rw [result_read, map_eq_error] at h
    exact Books.not_nestedTooDeep hnesting h

/-- A file, and one that it asks for, in which a date has no postings. -/
def rankedTexts : List (String × String) :=
  [("all", "include \"till\"\n"), ("till", "2020-03-01 ; nothing\n")]

/-- The first file has a rank above all others, by whatever path it is asked for. -/
def rankOfAll (file : String) : Nat := if Path.key file.toList = Path.key "all".toList then 1 else 0

theorem ranked_rankedTexts : (Files.inMemory rankedTexts).Ranked rankOfAll := by
  intro file path hasks
  have hasked (other : String) {text : String}
      (h : (Files.inMemory rankedTexts).read other = .ok text)
      (hkey : Path.key file.toList = Path.key other.toList) :
      path ∈ Token.asked (Token.ofString text) := (Files.asksFor_iff h).1 (hasks.of_key_eq hkey)
  by_cases hall : Path.key file.toList = Path.key "all".toList
  · have hpath := hasked "all" rfl hall
    have htill : Token.asked (Token.ofString "include \"till\"\n") = ["till"] := by decide +kernel
    rw [htill, List.mem_singleton] at hpath
    subst hpath
    have hbelow : Path.key (Path.resolve "all" "till").toList ≠ Path.key "all".toList := by
      decide +kernel
    rw [← Path.key_resolve_congr hall] at hbelow
    rw [rankOfAll, rankOfAll, if_pos hall, if_neg hbelow]
    exact Nat.one_pos
  · by_cases htill : Path.key file.toList = Path.key "till".toList
    · have hpath := hasked "till" rfl htill
      have hnone : Token.asked (Token.ofString "2020-03-01 ; nothing\n") = [] := by decide +kernel
      rw [hnone] at hpath
      cases hpath
    · obtain ⟨text, ⟨content, hcontent, -⟩, -⟩ := hasks
      have hnone : Files.find? rankedTexts file = none := by
        rw [Files.find?, Option.map_eq_none_iff, List.find?_eq_none]
        rintro named hnamed hkey
        rcases List.mem_pair.1 hnamed with rfl | rfl
        · exact htill (of_decide_eq_true hkey).symm
        · exact hall (of_decide_eq_true hkey).symm
      simp only [Files.inMemory, hnone] at hcontent
      cases hcontent

theorem read_ranked_rankedTexts :
    (Files.inMemory rankedTexts).Ranked rankOfAll ∧ rankOfAll "all" = 1 ∧
      read { Files.inMemory rankedTexts with nesting := 2 } "all" =
        read (Files.inMemory rankedTexts) "all" ∧
      ∃ fault, (read (Files.inMemory rankedTexts) "all").result = .error fault ∧
        fault.span = ⟨"till", ⟨1, 1⟩, ⟨1, 11⟩⟩ ∧ ∀ path, fault.cause ≠ .nestedTooDeep path := by
  have hrank : rankOfAll "all" = 1 := by decide +kernel
  obtain ⟨-, -, hread⟩ := read_ranked
  obtain ⟨-, hdepth, hfault⟩ := hread rankedTexts rankOfAll "all" ranked_rankedTexts
  have hresult : (read (Files.inMemory rankedTexts) "all").result =
      .error ⟨.dateWithoutPostings ⟨2020, 3, 1, by decide⟩, "till", ⟨1, 1⟩, ⟨1, 11⟩⟩ := by
    rw [result_read]
    have hbooks : (Books.read (Files.inMemory rankedTexts) (Files.inMemory rankedTexts).nesting
        ⟨"all", Span.startOf "all", .ledger⟩ .empty).result =
        .error ⟨.dateWithoutPostings ⟨2020, 3, 1, by decide⟩, "till", ⟨1, 1⟩, ⟨1, 11⟩⟩ := by
      decide +kernel
    rw [hbooks]
    rfl
  exact ⟨ranked_rankedTexts, hrank, hdepth 2 (by rw [hrank]; decide), _, hresult, rfl,
    hfault _ hresult⟩

end Draft

end DoubleEntry
