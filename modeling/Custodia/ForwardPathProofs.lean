import Custodia.Forwarding
import Custodia.SecretsRuns

/-! # ForwardPathProofs — the path that arrives upstream

    A forwarder joins the unquoted segments of a request into a path and
    appends it to the URL of the upstream server, where the path is taken out
    of the URL, split and unquoted again.

    * `Uri`: the URL of an upstream server;
    * `requestPath`: the path that a server finds in a request target;
    * `Survives`: segments that arrive as they were sent;
    * `forwarded_path_iff`: these, and no others. -/

namespace ForwardPathProofs

open SeparatedNames PosixPath PyValues Unquote SecretsConsumer Forwarding

/-! ## Targets and their paths -/

/-- The part of a target before its query and its fragment. -/
def beforeQuery (target : Str) : Str := target.takeWhile (fun c => decide (c ≠ '?' ∧ c ≠ '#'))

/-- The path without the parameters of its last segment, which begin at the
    first semicolon behind the last slash. -/
def withoutParams : Str → Str
  | [] => []
  | c :: rest =>
      if slash ∈ c :: rest then c :: withoutParams rest
      else (c :: rest).takeWhile (fun c => decide (c ≠ ';'))

/-- `urlparse(target).path`, for a target that is empty or begins with a slash:
    after two slashes there is a host first, whose brackets must match. -/
def requestPath (target : Str) : Option Str :=
  match target with
  | '/' :: '/' :: rest =>
      let netloc := rest.takeWhile (fun c => decide (c ≠ slash ∧ c ≠ '?' ∧ c ≠ '#'))
      let url := rest.dropWhile (fun c => decide (c ≠ slash ∧ c ≠ '?' ∧ c ≠ '#'))
      if decide ('[' ∈ netloc) ≠ decide (']' ∈ netloc) then none
      else some (withoutParams (beforeQuery url))
  | target => some (withoutParams (beforeQuery target))

/-- The path chain of `parse_request`. -/
def parseRequest (target : Str) : Option (List Str) := (requestPath target).map parsePath

/-- The URL of an upstream server: scheme and host, which do not end in a slash,
    then a path, which is empty or absolute and has no query. -/
structure Uri where
  origin : Str
  path : Str
  origin_open : endsInSlash origin = false
  rooted : path = [] ∨ isAbsolute path = true
  plain : ∀ c ∈ path, c ≠ '?' ∧ c ≠ '#'

namespace Uri

/-- The option `forward_uri`. -/
def text (u : Uri) : Str := u.origin ++ u.path

/-- The path of the URL, as far as it is used. -/
def base (u : Uri) : Str := rstrip u.path

/-- The target of a request to a URL of the server: the path of the URL as it
    is, then a query. -/
def target (u : Uri) (url query : Str) : Str := beforeQuery (url.drop u.origin.length) ++ query

end Uri

/-- Nothing, or a query behind its question mark. -/
def IsQuery (query : Str) : Prop := query = [] ∨ query.head? = some '?'

/-- What the client has named: the user, where it is put first, and the trail. -/
def namedSegments (fwd : Forwarder) (req : Request) : List Str :=
  (if fwd.prefixRemoteUser then [req.remoteUser.getD "guest"] else []) ++ req.trail.getD []

/-- The forwarder, configured with the URL. -/
def forwardingTo (u : Uri) (fwd : Forwarder) : Forwarder := { fwd with forwardUri := u.text }

/-- The upstream server is asked for what the client has named. -/
def Faithful (u : Uri) (fwd : Forwarder) (req : Request) : Prop :=
  ∀ query, IsQuery query →
    parseRequest (u.target (upstreamRequest (forwardingTo u fwd) req).url query)
      = some (parsePath u.base ++ namedSegments fwd req)

/-- Segments that arrive as they are sent: joined, put into the URL behind a
    base and taken apart by the upstream server, they are the same segments
    again. -/
structure Survives (segs : List Str) : Prop where
  /-- There is one. -/
  some : segs ≠ []
  /-- None is cut, split or decoded. -/
  plain : ∀ s ∈ segs, slash ∉ s ∧ '?' ∉ s ∧ '#' ∉ s ∧ unquote s = s
  /-- The last one has no parameters. -/
  last : ∀ s, segs.getLast? = .some s → ';' ∉ s
  /-- The first one is not empty, unless it is the only one. -/
  first : segs.head? = .some [] → segs = [[]]

/-! ## The URL -/

/-- Slashes are stripped from the second part only, where the first ends in
    none. -/
theorem rstrip_append {s t : Str} (hend : endsInSlash s = false) :
    rstrip (s ++ t) = s ++ rstrip t := by
  -- from the end, where `rstrip` removes
  induction t using List.reverseRecOn with
  | nil =>
      rw [List.append_nil, show rstrip [] = [] from rfl, List.append_nil]
      refine (trimRight_eq_self_iff slash).mpr ?_
      intro hlast
      rw [endsInSlash_iff.mpr hlast] at hend
      exact nomatch hend
  | append_singleton t c ih =>
      by_cases hc : c = slash
      · subst hc
        rw [← List.append_assoc, rstrip_concat, rstrip_concat, ih]
      · have hself {r : Str} : rstrip (r ++ [c]) = r ++ [c] :=
          (trimRight_eq_self_iff slash).mpr (by simpa using hc)
        rw [← List.append_assoc, hself, hself, List.append_assoc]

/-- What is sent as the path: the base, then the path of the request. -/
theorem target_eq (u : Uri) (fwd : Forwarder) (req : Request) (query : Str) :
    u.target (upstreamRequest (forwardingTo u fwd) req).url query
      = u.base ++ slash :: (beforeQuery (lstrip (fwd.path req)) ++ query) := by
  have hurl : (upstreamRequest (forwardingTo u fwd) req).url
      = u.origin ++ (u.base ++ slash :: lstrip (fwd.path req)) := by
    show rstrip (u.origin ++ u.path) ++ slash :: lstrip (fwd.path req) = _
    rw [rstrip_append u.origin_open, List.append_assoc]
    rfl
  have hbase : ∀ c ∈ u.base ++ [slash], decide (c ≠ '?' ∧ c ≠ '#') = true := by
    intro c hc
    rcases List.mem_append.mp hc with hc | hc
    · exact decide_eq_true (u.plain c ((List.rdropWhile_prefix _ u.path).subset hc))
    · rw [List.mem_singleton.mp hc]
      rfl
  rw [Uri.target, hurl, List.drop_left]
  show List.takeWhile _ _ ++ query = _
  rw [show u.base ++ slash :: lstrip (fwd.path req)
      = (u.base ++ [slash]) ++ lstrip (fwd.path req) by simp,
    List.takeWhile_append_of_pos hbase]
  simp [beforeQuery]

/-! ## Taking the path out again -/

/-- Parameters are cut off the last segment alone. -/
theorem withoutParams_append (p q : Str) :
    withoutParams (p ++ slash :: q) = p ++ slash :: withoutParams q := by
  induction p with
  | nil =>
      show (if slash ∈ slash :: q then _ else _) = _
      exact if_pos List.mem_cons_self
  | cons c p ih =>
      have hmem : slash ∈ c :: (p ++ slash :: q) := by simp
      exact (if_pos hmem).trans (congrArg (List.cons c) ih)

/-- In a single segment the parameters begin at the first semicolon. -/
theorem withoutParams_of_not_mem {s : Str} (h : slash ∉ s) :
    withoutParams s = s.takeWhile (fun c => decide (c ≠ ';')) := by
  cases s with
  | nil => rfl
  | cons c s => exact if_neg h

/-- Cutting off parameters leaves a beginning of the path. -/
theorem prefix_withoutParams (s : Str) : withoutParams s <+: s := by
  induction s with
  | nil => exact List.prefix_rfl
  | cons c s ih =>
      rw [withoutParams]
      split_ifs
      · exact List.cons_prefix_cons.mpr ⟨rfl, ih⟩
      · exact List.takeWhile_prefix _

/-- Nothing is cut off at a character exactly if it is not there. -/
theorem takeWhile_eq_self_iff_not_mem {s : Str} {c : Char} :
    s.takeWhile (fun d => decide (d ≠ c)) = s ↔ c ∉ s := by
  rw [List.takeWhile_eq_self_iff]
  constructor
  · intro h hmem
    exact of_decide_eq_true (h c hmem) rfl
  · intro h d hd
    exact decide_eq_true (fun heq => h (heq ▸ hd))

/-- Nothing is cut off as a query exactly if there is neither a question mark
    nor a number sign. -/
theorem beforeQuery_eq_self_iff {s : Str} :
    beforeQuery s = s ↔ ∀ c ∈ s, c ≠ '?' ∧ c ≠ '#' := by
  rw [beforeQuery, List.takeWhile_eq_self_iff]
  exact forall₂_congr (fun c _ => decide_eq_true_iff)

/-- A query ends what is read of a target. -/
theorem beforeQuery_append {s query : Str} (hs : beforeQuery s = s) (hquery : IsQuery query) :
    beforeQuery (s ++ query) = s := by
  rw [beforeQuery, List.takeWhile_append_of_pos
    (fun c hc => decide_eq_true (beforeQuery_eq_self_iff.mp hs c hc))]
  rcases hquery with rfl | hquery
  · simp
  · obtain ⟨rest, rfl⟩ := List.head?_eq_some_iff.mp hquery
    rw [List.takeWhile_cons_of_neg (by decide), List.append_nil]

/-- A path has one segment more than slashes. -/
theorem length_parsePath (p : Str) : (parsePath p).length = p.count slash + 1 := by
  obtain ⟨names, hne, hfree, rfl⟩ := exists_spell slash p
  rw [parsePath, List.length_map, splitOn_spell slash hne hfree,
    ← count_spell_of_free slash hne hfree]

/-- The targets that are sent, read behind a base that is free of queries. -/
theorem beforeQuery_target {base x query : Str} (hbase : ∀ c ∈ base, c ≠ '?' ∧ c ≠ '#')
    (hx : beforeQuery x = x) (hquery : IsQuery query) :
    withoutParams (beforeQuery (base ++ slash :: (x ++ query)))
      = base ++ slash :: withoutParams x := by
  have hplain : beforeQuery (base ++ slash :: x) = base ++ slash :: x := by
    refine beforeQuery_eq_self_iff.mpr ?_
    intro c hc
    rcases List.mem_append.mp hc with hc | hc
    · exact hbase c hc
    · rcases List.mem_cons.mp hc with rfl | hc
      · exact ⟨by decide, by decide⟩
      · exact beforeQuery_eq_self_iff.mp hx c hc
  rw [show base ++ slash :: (x ++ query) = (base ++ slash :: x) ++ query by simp,
    beforeQuery_append hplain hquery, withoutParams_append]

/-- **What the upstream server reads**, where no host is mistaken for a path. -/
theorem parseRequest_plain {base x query : Str} (hbase : ∀ c ∈ base, c ≠ '?' ∧ c ≠ '#')
    (hx : beforeQuery x = x) (hquery : IsQuery query)
    (hhost : ¬ [slash, slash] <+: base ++ slash :: (x ++ query)) :
    parseRequest (base ++ slash :: (x ++ query))
      = some (parsePath base ++ parsePath (withoutParams x)) := by
  have hpath : requestPath (base ++ slash :: (x ++ query))
      = some (withoutParams (beforeQuery (base ++ slash :: (x ++ query)))) := by
    unfold requestPath
    split
    · rename_i rest heq
      rw [heq] at hhost
      exact absurd ⟨rest, rfl⟩ hhost
    · rfl
  rw [parseRequest, hpath, beforeQuery_target hbase hx hquery]
  exact congrArg some (parsePath_append base (withoutParams x))

/-- Where one is, two segments are missing at least. -/
theorem parseRequest_host {rest x query : Str} (hrest : ∀ c ∈ rest, c ≠ '?' ∧ c ≠ '#')
    (hx : beforeQuery x = x) (hquery : IsQuery query) {chain : List Str}
    (h : parseRequest (slash :: slash :: rest ++ slash :: (x ++ query)) = some chain) :
    ∃ segs, segs.length + 2 ≤ (parsePath (slash :: slash :: rest)).length
      ∧ chain = segs ++ parsePath (withoutParams x) := by
  let stop : Char → Bool := fun c => decide (c ≠ slash ∧ c ≠ '?' ∧ c ≠ '#')
  have hdrop : (rest ++ slash :: (x ++ query)).dropWhile stop
      = rest.dropWhile stop ++ slash :: (x ++ query) := by
    rw [List.dropWhile_append]
    split_ifs with hempty
    · rw [List.isEmpty_iff.mp hempty]
      exact List.dropWhile_cons_of_neg (by decide)
    · rfl
  have hfree : ∀ c ∈ rest.dropWhile stop, c ≠ '?' ∧ c ≠ '#' :=
    fun c hc => hrest c ((List.dropWhile_suffix stop).subset hc)
  have hread : chain = parsePath (rest.dropWhile stop) ++ parsePath (withoutParams x) := by
    rw [parseRequest, show slash :: slash :: rest ++ slash :: (x ++ query)
      = slash :: slash :: (rest ++ slash :: (x ++ query)) from rfl] at h
    unfold requestPath at h
    simp only at h
    split_ifs at h
    · exact nomatch h
    · rw [show (rest ++ slash :: (x ++ query)).dropWhile _ = _ from hdrop,
        beforeQuery_target hfree hx hquery] at h
      exact (Option.some.inj h).symm.trans (parsePath_append _ _)
  refine ⟨parsePath (rest.dropWhile stop), ?_, hread⟩
  have hsuffix : rest.dropWhile stop <:+ rest := List.dropWhile_suffix stop
  have hcount := hsuffix.sublist.count_le slash
  rw [length_parsePath, length_parsePath, List.count_cons_self, List.count_cons_self]
  omega

/-! ## Segments that survive -/

/-- The segments that the forwarder joins: trailing slashes of the user are
    removed. -/
def sentSegments (fwd : Forwarder) (req : Request) : List Str :=
  (if fwd.prefixRemoteUser then [rstrip (req.remoteUser.getD "guest")] else [])
    ++ req.trail.getD []

/-- The length of the segments, each with a slash. -/
def weight (segs : List Str) : Nat := (segs.map (fun s => s.length + 1)).sum

/-- The weight of two lists of segments is the sum of theirs. -/
theorem weight_append (segs more : List Str) :
    weight (segs ++ more) = weight segs + weight more := by
  rw [weight, List.map_append, List.sum_append]
  rfl

/-- Every segment counts at least once. -/
theorem length_le_weight (segs : List Str) : segs.length ≤ weight segs := by
  induction segs with
  | nil => exact Nat.zero_le _
  | cons s segs ih =>
      rw [weight, List.map_cons, List.sum_cons, List.length_cons]
      have : segs.length ≤ (segs.map (fun s => s.length + 1)).sum := ih
      omega

/-- Unquoting makes no segment heavier. -/
theorem weight_unquote_le (segs : List Str) : weight (segs.map unquote) ≤ weight segs := by
  induction segs with
  | nil => exact Nat.le_refl _
  | cons s segs ih =>
      show (unquote s).length + 1 + weight (segs.map unquote) ≤ s.length + 1 + weight segs
      have := length_unquote_le s
      omega

/-- Reading a path makes it no longer. -/
theorem weight_parsePath_le (p : Str) : weight (parsePath p) ≤ p.length + 1 := by
  have hspell : spell slash (p.splitOn slash) = p := List.intercalate_splitOn slash
  have hlength := length_spell slash (List.splitOn_ne_nil slash p)
  rw [hspell] at hlength
  rw [hlength]
  exact weight_unquote_le (p.splitOn slash)

/-- The path that is asked for spells the segments that are sent. -/
theorem path_eq (fwd : Forwarder) (req : Request) :
    fwd.path req = joinSlash (sentSegments fwd req) := rfl

/-- Nothing is sent exactly if the request names nothing. -/
theorem sentSegments_eq_nil_iff {fwd : Forwarder} {req : Request} :
    sentSegments fwd req = [] ↔ namedSegments fwd req = [] := by
  unfold sentSegments namedSegments
  cases fwd.prefixRemoteUser with
  | false => exact Iff.rfl
  | true => exact iff_of_false (List.cons_ne_nil _ _) (List.cons_ne_nil _ _)

/-- Stripping makes no text longer. -/
theorem length_rstrip_le (s : Str) : (rstrip s).length ≤ s.length :=
  (List.rdropWhile_prefix _ s).length_le

/-- Removing slashes from the user loses something, if it changes anything. -/
theorem weight_sentSegments (fwd : Forwarder) (req : Request) :
    weight (sentSegments fwd req) ≤ weight (namedSegments fwd req)
      ∧ (weight (sentSegments fwd req) = weight (namedSegments fwd req) →
        sentSegments fwd req = namedSegments fwd req) := by
  unfold sentSegments namedSegments
  cases fwd.prefixRemoteUser with
  | false => exact ⟨Nat.le_refl _, fun _ => rfl⟩
  | true =>
      have hle := length_rstrip_le (req.remoteUser.getD "guest")
      have hweight (user : Str) (trail : List Str) :
          weight ((if true = true then [user] else []) ++ trail)
            = user.length + 1 + weight trail := rfl
      rw [hweight, hweight]
      refine ⟨by omega, fun heq => ?_⟩
      have hself : rstrip (req.remoteUser.getD "guest") = req.remoteUser.getD "guest" :=
        (List.rdropWhile_prefix _ _).eq_of_length (by
          show (rstrip _).length = _
          omega)
      rw [hself]

/-- The path as it is sent is not longer than what was named. -/
theorem length_path_le (fwd : Forwarder) (req : Request) (hne : namedSegments fwd req ≠ []) :
    (fwd.path req).length + 1 ≤ weight (namedSegments fwd req)
      ∧ (weight (namedSegments fwd req) ≤ (fwd.path req).length + 1 →
        sentSegments fwd req = namedSegments fwd req) := by
  have hsent : sentSegments fwd req ≠ [] := fun h => hne (sentSegments_eq_nil_iff.mp h)
  have hlength : (fwd.path req).length + 1 = weight (sentSegments fwd req) :=
    length_spell slash hsent
  obtain ⟨hle, heq⟩ := weight_sentSegments fwd req
  exact ⟨by omega, fun h => heq (by omega)⟩

/-- Whatever is cut off a path makes it shorter. -/
theorem eq_of_length_cut {p : Str}
    (h : p.length ≤ (withoutParams (beforeQuery (lstrip p))).length) :
    lstrip p = p ∧ beforeQuery p = p ∧ withoutParams p = p := by
  have hstrip : lstrip p <:+ p := List.dropWhile_suffix _
  have hquery : beforeQuery (lstrip p) <+: lstrip p := List.takeWhile_prefix _
  have hparams := prefix_withoutParams (beforeQuery (lstrip p))
  have hstripLength := hstrip.length_le
  have hqueryLength := hquery.length_le
  have hparamsLength := hparams.length_le
  have h1 : lstrip p = p := hstrip.eq_of_length (by omega)
  rw [h1] at hquery hparams hqueryLength hparamsLength h
  have h2 : beforeQuery p = p := hquery.eq_of_length (by omega)
  rw [h2] at hparams hparamsLength h
  exact ⟨h1, h2, hparams.eq_of_length (by omega)⟩

/-- The slash that a path begins with is removed. -/
theorem lstrip_eq_self_iff {p : Str} : lstrip p = p ↔ isAbsolute p = false := by
  rw [lstrip, trimLeft_eq_self_iff, isAbsolute, beq_eq_false_iff_ne]

/-- The last segment decides what is cut off at its end. -/
theorem withoutParams_joinSlash {segs : List Str} {s : Str} (hlast : segs.getLast? = some s)
    (hs : slash ∉ s) : withoutParams (joinSlash segs) = joinSlash segs ↔ ';' ∉ s := by
  obtain ⟨init, rfl⟩ := List.getLast?_eq_some_iff.mp hlast
  rw [← takeWhile_eq_self_iff_not_mem, ← withoutParams_of_not_mem hs]
  cases init with
  | nil => rw [joinSlash, List.nil_append, spell_singleton]
  | cons a init =>
      rw [joinSlash, spell_append slash (List.cons_ne_nil a init) (List.cons_ne_nil s []),
        spell_singleton, withoutParams_append]
      constructor
      · intro h
        exact (List.cons.inj (List.append_cancel_left h)).2
      · intro h
        rw [h]

/-- A path whose segments are read as they are has segments without slashes. -/
theorem slash_not_mem_of_read {segs : List Str} (hread : parsePath (joinSlash segs) = segs) :
    ∀ s ∈ segs, slash ∉ s := by
  have hne : segs ≠ [] := by
    rintro rfl
    exact parsePath_ne_nil _ hread
  have hlength := length_parsePath (joinSlash segs)
  rw [hread] at hlength
  exact free_of_count_spell slash hne (by rw [hlength]; exact Nat.lt_succ_self _)

/-- **What survives is what is neither cut nor decoded on its way.** -/
theorem survives_iff {segs : List Str} :
    Survives segs ↔ lstrip (joinSlash segs) = joinSlash segs
      ∧ beforeQuery (joinSlash segs) = joinSlash segs
      ∧ withoutParams (joinSlash segs) = joinSlash segs ∧ parsePath (joinSlash segs) = segs := by
  constructor
  · intro h
    have hfree : ∀ s ∈ segs, slash ∉ s := fun s hs => (h.plain s hs).1
    have hsplit : (joinSlash segs).splitOn slash = segs := splitOn_spell slash h.some hfree
    have hlast := List.getLast?_eq_getLast_of_ne_nil h.some
    refine ⟨lstrip_eq_self_iff.mpr ?_, beforeQuery_eq_self_iff.mpr ?_, ?_, ?_⟩
    · cases habs : isAbsolute (joinSlash segs) with
      | false => rfl
      | true =>
          -- only an empty first segment puts a slash first
          obtain ⟨rest, hrest⟩ := isAbsolute_iff.mp habs
          rw [hrest, show slash :: rest = [] ++ slash :: rest from rfl,
            List.splitOn_append_cons_self_of_not_mem List.not_mem_nil] at hsplit
          have honly := h.first (by rw [← hsplit]; rfl)
          rw [honly, joinSlash, spell_singleton] at hrest
          cases hrest
    · intro c hc
      by_cases hslash : c = slash
      · rw [hslash]
        exact ⟨by decide, by decide⟩
      · obtain ⟨s, hs, hcs⟩ := (mem_spell_iff slash hslash h.some).mp hc
        obtain ⟨-, hquestion, hhash, -⟩ := h.plain s hs
        exact ⟨fun heq => hquestion (heq ▸ hcs), fun heq => hhash (heq ▸ hcs)⟩
    · exact (withoutParams_joinSlash hlast (hfree _ (List.mem_of_getLast? hlast))).mpr
        (h.last _ hlast)
    · rw [parsePath, hsplit]
      refine (List.map_congr_left fun s hs => ?_).trans (List.map_id segs)
      exact (h.plain s hs).2.2.2
  · rintro ⟨hstrip, hquery, hparams, hread⟩
    have hne : segs ≠ [] := by
      rintro rfl
      exact parsePath_ne_nil _ hread
    have hfree := slash_not_mem_of_read hread
    have hsplit : (joinSlash segs).splitOn slash = segs := splitOn_spell slash hne hfree
    refine ⟨hne, fun s hs => ?_, fun s hlast => ?_, fun hfirst => ?_⟩
    · have hchars (c : Char) (hc : c ∈ s) (hslash : c ≠ slash) : c ≠ '?' ∧ c ≠ '#' :=
        beforeQuery_eq_self_iff.mp hquery c ((mem_spell_iff slash hslash hne).mpr ⟨s, hs, hc⟩)
      refine ⟨hfree s hs, fun hc => (hchars '?' hc (by decide)).1 rfl,
        fun hc => (hchars '#' hc (by decide)).2 rfl, ?_⟩
      rw [parsePath, hsplit] at hread
      exact List.map_inj_left.mp (hread.trans (List.map_id segs).symm) s hs
    · exact (withoutParams_joinSlash hlast (hfree s (List.mem_of_getLast? hlast))).mp hparams
    · obtain ⟨rest, rfl⟩ := List.head?_eq_some_iff.mp hfirst
      cases rest with
      | nil => rfl
      | cons b rest =>
          have habs := lstrip_eq_self_iff.mp hstrip
          rw [joinSlash, spell_cons slash [] (List.cons_ne_nil b rest)] at habs
          cases habs

/-! ## The whole way -/

/-- Everything that is sent arrives only if nothing of it is changed: behind
    the segments that the server reads first, there is no room for more. -/
theorem survives_of_read {fwd : Forwarder} {req : Request} (segs : List Str)
    (h : parsePath (withoutParams (beforeQuery (lstrip (fwd.path req))))
      = segs ++ namedSegments fwd req) :
    segs.length ≤ 1 ∧ (segs = [] → Survives (namedSegments fwd req)) := by
  have hread := weight_parsePath_le (withoutParams (beforeQuery (lstrip (fwd.path req))))
  rw [h, weight_append] at hread
  have hparams := (prefix_withoutParams (beforeQuery (lstrip (fwd.path req)))).length_le
  have hquery : (beforeQuery (lstrip (fwd.path req))).length ≤ (lstrip (fwd.path req)).length :=
    (List.takeWhile_prefix _).length_le
  have hstrip : (lstrip (fwd.path req)).length ≤ (fwd.path req).length :=
    (List.dropWhile_suffix _).length_le
  have hsegs := length_le_weight segs
  by_cases hne : namedSegments fwd req = []
  · -- nothing was named, and one empty segment is read
    have hempty : fwd.path req = [] := by
      rw [path_eq, sentSegments_eq_nil_iff.mpr hne]
      rfl
    rw [hempty, hne, List.append_nil] at h
    rw [← h]
    exact ⟨Nat.le_refl 1, nofun⟩
  · obtain ⟨hle, heq⟩ := length_path_le fwd req hne
    refine ⟨by omega, ?_⟩
    rintro rfl
    have hnone : weight [] = 0 := rfl
    obtain ⟨hstrip', hquery', hparams'⟩ := eq_of_length_cut (p := fwd.path req) (by omega)
    have hsent : sentSegments fwd req = namedSegments fwd req := heq (by omega)
    rw [hstrip', hquery', hparams', List.nil_append, path_eq, hsent] at h
    rw [path_eq, hsent] at hstrip' hquery' hparams'
    exact survives_iff.mpr ⟨hstrip', hquery', hparams', h⟩

/-- There is no query in the base of a URL. -/
theorem base_plain (u : Uri) : ∀ c ∈ u.base, c ≠ '?' ∧ c ≠ '#' :=
  fun c hc => u.plain c ((List.rdropWhile_prefix _ u.path).subset hc)

/-- A base is empty or begins with a slash, and it is not just a slash. -/
theorem base_cases (u : Uri) : u.base = [] ∨ ∃ c rest, u.base = slash :: c :: rest := by
  have hpre : u.base <+: u.path := List.rdropWhile_prefix _ u.path
  cases hbase : u.base with
  | nil => exact Or.inl rfl
  | cons c rest =>
      have hslash : c = slash := by
        rcases u.rooted with hnil | habs
        · rw [hbase, hnil] at hpre
          exact nomatch List.prefix_nil.mp hpre
        · obtain ⟨t, ht⟩ := isAbsolute_iff.mp habs
          rw [hbase, ht] at hpre
          exact (List.cons_prefix_cons.mp hpre).1
      subst hslash
      cases rest with
      | nil =>
          have hlast : (rstrip u.path).getLast? ≠ some slash := getLast?_trimRight slash u.path
          rw [show rstrip u.path = [slash] from hbase] at hlast
          exact absurd rfl hlast
      | cons c rest => exact Or.inr ⟨c, rest, rfl⟩

/-- What is before the query of a relative path is relative. -/
theorem not_absolute_beforeQuery (p : Str) : isAbsolute (beforeQuery (lstrip p)) = false := by
  have hself : lstrip (lstrip p) = lstrip p := List.dropWhile_idempotent _ _
  have hpre : beforeQuery (lstrip p) <+: lstrip p := List.takeWhile_prefix _
  cases habs : isAbsolute (beforeQuery (lstrip p)) with
  | false => rfl
  | true =>
      obtain ⟨t, ht⟩ := hpre
      have hwhole := isAbsolute_append t habs
      rw [ht, lstrip_eq_self_iff.mp hself] at hwhole
      exact nomatch hwhole

/-- What is before the query has none. -/
theorem beforeQuery_idem (s : Str) : beforeQuery (beforeQuery s) = beforeQuery s := by
  show List.takeWhile _ (List.takeWhile _ s) = List.takeWhile _ s
  exact List.takeWhile_idem

/-- A base that does not look like a host does not make the target look so. -/
theorem not_host {u : Uri} (hhost : ¬ [slash, slash] <+: u.base) (p : Str) {query : Str}
    (hquery : IsQuery query) :
    ¬ [slash, slash] <+: u.base ++ slash :: (beforeQuery (lstrip p) ++ query) := by
  rintro ⟨t, ht⟩
  rcases base_cases u with hbase | ⟨c, rest, hbase⟩
  · -- the path that follows does not begin with a slash
    rw [hbase] at ht
    have hrest : slash :: t = beforeQuery (lstrip p) ++ query := (List.cons.inj ht).2
    cases hx : beforeQuery (lstrip p) with
    | nil =>
        rw [hx, List.nil_append] at hrest
        rcases hquery with hnil | hmark
        · exact nomatch hrest.trans hnil
        · rw [← hrest] at hmark
          exact absurd (Option.some.inj hmark) (by decide)
    | cons d x =>
        have habs := not_absolute_beforeQuery p
        rw [hx] at hrest habs
        rw [← (List.cons.inj hrest).1] at habs
        exact nomatch habs
  · rw [hbase] at ht hhost
    have hc : slash = c := (List.cons.inj (List.cons.inj ht).2).1
    exact hhost ⟨rest, by rw [← hc]; rfl⟩

/-- The user survives with its slashes, of which there are none. -/
theorem sentSegments_of_survives {fwd : Forwarder} {req : Request}
    (h : Survives (namedSegments fwd req)) : sentSegments fwd req = namedSegments fwd req := by
  rw [sentSegments]
  rw [namedSegments] at h ⊢
  cases hon : fwd.prefixRemoteUser with
  | false => rfl
  | true =>
      rw [hon] at h
      have huser : slash ∉ req.remoteUser.getD "guest" := (h.plain _ List.mem_cons_self).1
      rw [show rstrip (req.remoteUser.getD "guest") = req.remoteUser.getD "guest" from
        (trimRight_eq_self_iff slash).mpr (getLast?_ne_of_not_mem slash huser)]

/-- **HEADLINE — which paths are forwarded faithfully**: those to a base that
    does not look like a host, whose segments survive. -/
theorem forwarded_path_iff (u : Uri) (fwd : Forwarder) (req : Request) :
    Faithful u fwd req ↔ ¬ [slash, slash] <+: u.base ∧ Survives (namedSegments fwd req) := by
  have hx := beforeQuery_idem (lstrip (fwd.path req))
  constructor
  · intro h
    have hread := h [] (Or.inl rfl)
    rw [target_eq] at hread
    by_cases hhost : [slash, slash] <+: u.base
    · -- the server takes the beginning of the base for a host
      exfalso
      obtain ⟨rest, hrest⟩ := hhost
      have hbase : u.base = slash :: slash :: rest := hrest.symm
      have hplain := base_plain u
      rw [hbase] at hread hplain
      obtain ⟨segs, hlength, hchain⟩ := parseRequest_host
        (fun c hc => hplain c (List.mem_cons_of_mem _ (List.mem_cons_of_mem _ hc))) hx
        (Or.inl rfl) hread
      rcases List.append_eq_append_iff.mp hchain with ⟨more, hmore, -⟩ | ⟨more, hmore, hpath⟩
      · -- the segments before the names are too few for the base
        rw [hmore, List.length_append] at hlength
        omega
      · have hshort := (survives_of_read more hpath).1
        rw [hmore, List.length_append] at hlength
        omega
    · -- behind the base, what is read is what was named
      rw [parseRequest_plain (base_plain u) hx (Or.inl rfl)
        (not_host hhost _ (Or.inl rfl))] at hread
      have hpath := List.append_cancel_left (Option.some.inj hread)
      exact ⟨hhost, (survives_of_read [] hpath).2 rfl⟩
  · rintro ⟨hhost, hsurvives⟩ query hquery
    rw [target_eq, parseRequest_plain (base_plain u) hx hquery (not_host hhost _ hquery)]
    obtain ⟨hstrip, hcut, hparams, hread⟩ := survives_iff.mp hsurvives
    rw [path_eq, sentSegments_of_survives hsurvives, hstrip, hcut, hparams, hread]

/-! ### Where a name changes on the way -/

/-- An upstream server. -/
def upstream : Uri where
  origin := "http://localhost"
  path := "/secrets"
  origin_open := by decide
  rooted := Or.inr rfl
  plain := by simp

/-- The user `u` asks for a secret. -/
def asksFor (trail : List Str) : Request := SecretsRuns.userRequest "GET" "u" trail [] none

/-- What arrives upstream. -/
def arrives (trail : List Str) : Option (List Str) :=
  parseRequest (upstream.target
    (upstreamRequest (forwardingTo upstream plainForwarder) (asksFor trail)).url [])

/-- **Another secret is asked for**: what follows a question mark in a name is
    lost, and an encoded slash becomes one. -/
theorem name_changes :
    arrives ["a?b"] = some (["", "secrets", "u", "a"] : List Str)
      ∧ arrives ["a%2Fb"] = some (["", "secrets", "u", "a/b"] : List Str)
      ∧ ¬ Faithful upstream plainForwarder (asksFor ["a?b"])
      ∧ ¬ Faithful upstream plainForwarder (asksFor ["a%2Fb"]) := by
  have hquestion : arrives ["a?b"] = some (["", "secrets", "u", "a"] : List Str) := by decide
  have hencoded : arrives ["a%2Fb"] = some (["", "secrets", "u", "a/b"] : List Str) := by decide
  refine ⟨hquestion, hencoded, fun h => ?_, fun h => ?_⟩
  · have hread := h [] (Or.inl rfl)
    exact absurd (hquestion.symm.trans hread) (by decide)
  · have hread := h [] (Or.inl rfl)
    exact absurd (hencoded.symm.trans hread) (by decide)

end ForwardPathProofs
