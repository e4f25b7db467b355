import NwcMobile.ApplicationMetadata

/-!
Hosts that an authorization request may name. The check compares the host with the
names of local hosts; a host with a root dot is another spelling of a name, and is
compared as it stands.
-/

namespace NwcMobile

open Fallible Nwa

/-- The characters of a host in lower case. -/
def hostChars (host : String) : List Char := host.toLower.toList

/-- A host without the dot of the DNS root. -/
def withoutRoot (host : String) : String :=
  if host.toList.getLast? = some '.' then String.ofList host.toList.dropLast else host

def endsInLocal (host : String) : Bool := ".local".toList.isSuffixOf (hostChars host)

/-- Four labels that `u8::from_str` takes; a label may start with a plus sign. -/
def hasFourOctets (host : String) : Bool :=
  let parts := (hostChars host).splitOn '.'
  parts.length == 4 && parts.all fun part => (parseUnsigned 256 (String.ofList part)).isSome

/-- An IPv4 address in decimal. -/
def isDottedQuad (host : String) : Bool := hasFourOctets host && !(hostChars host).contains '+'

/-- A name that leads to a local host or to an address. -/
def namesLocalHost (host : String) : Bool :=
  !(hostChars host).contains '.' || hostChars host == "localhost".toList || endsInLocal host ||
    isDottedQuad host

/-- A host that an authorization request or an icon was accepted with. -/
inductive AcceptedHost (x : Crates) (parts : UrlParts) (host : String) : Prop
  | callback {query : NwaQuery} {callback : NwaCallback}
      (parsed : parseCallback x parts query = .ok (some callback))
      (named : callback.url.hostStr = some host)
  | icon {raw : Option String} {url : ParsedUrl} (parsed : parseIconUrl x parts raw = some url)
      (named : url.hostStr = some host)

/-- The URL parser takes four numbers for an IPv4 address, which it writes without a root dot. -/
def Crates.QuadsWithoutRoot (x : Crates) : Prop :=
  ∀ text url host, x.parseUrl text = some url → url.scheme = "https" →
    url.hostStr = some host → isDottedQuad (withoutRoot host) = true → withoutRoot host = host

/-- A root dot behind a single label or behind a name in the domain `local`. -/
def RootedLocal (host : String) : Prop :=
  ∃ name, host = name ++ "." ∧ ((hostChars name).contains '.' = false ∨ endsInLocal name = true)

section Hosts

variable {x : Crates} {parts : UrlParts} {host name : String} {url : ParsedUrl}

theorem isPublicDomain_eq (host : String) : isPublicDomain host =
    !(!(hostChars host).contains '.' || hostChars host == "localhost".toList ||
      endsInLocal host || (hostChars host).contains ':' || hasFourOctets host) := by
  rw [isPublicDomain]
  simp only [endsInLocal, hasFourOctets, hostChars]
  split
  · rename_i hrefused
    rw [hrefused, Bool.true_or, Bool.not_true]
  · rename_i htaken
    rw [Bool.not_eq_true] at htaken
    rw [htaken, Bool.false_or]

theorem ne_localhost_of_dot (h : (hostChars host).contains '.' = true) :
    (hostChars host == "localhost".toList) = false := by
  rw [beq_eq_false_iff_ne]
  intro hsame
  rw [hsame] at h
  exact absurd h (by decide)

theorem hostChars_root (name : String) : hostChars (name ++ ".") = hostChars name ++ ['.'] := by
  rw [hostChars, hostChars, Words.toList_toLower, Words.toList_toLower, String.toList_append,
    List.map_append]
  rfl

theorem splitOn_root (chars : List Char) :
    (chars ++ ['.']).splitOn '.' = chars.splitOn '.' ++ [[]] := by
  have hsep : (fun c => c == '.') '.' = true := rfl
  exact List.splitOnP_append_cons chars [] hsep

/-- With a root dot only a colon is refused. -/
theorem isPublicDomain_root (name : String) :
    isPublicDomain (name ++ ".") = !(hostChars name).contains ':' := by
  have hdot : (hostChars (name ++ ".")).contains '.' = true := by
    rw [hostChars_root]
    simp
  have hlocal : ".local".toList.isSuffixOf (hostChars name ++ ['.']) = false := by
    rw [← Bool.not_eq_true, List.isSuffixOf_iff_suffix]
    rintro ⟨front, hsame⟩
    have hlast := congrArg List.getLast? hsame
    rw [List.getLast?_concat, List.getLast?_append_of_ne_nil _ (by decide)] at hlast
    exact absurd hlast (by decide)
  have hoctets : hasFourOctets (name ++ ".") = false := by
    rw [hasFourOctets, hostChars_root]
    simp only [splitOn_root, List.all_append]
    have hempty : (parseUnsigned 256 (String.ofList [])).isSome = false := by decide
    simp [hempty]
  have hcolon : (hostChars name ++ ['.']).contains ':' = (hostChars name).contains ':' := by simp
  rw [isPublicDomain_eq, hoctets, hdot, ne_localhost_of_dot hdot, endsInLocal, hostChars_root, hlocal,
    hcolon]
  simp

theorem withoutRoot_root (name : String) : withoutRoot (name ++ ".") = name := by
  have hchars : (name ++ ".").toList = name.toList ++ ['.'] := String.toList_append
  rw [withoutRoot, hchars, List.getLast?_concat, if_pos rfl, List.dropLast_concat,
    String.ofList_toList]

theorem root_cases (host : String) :
    (∃ name, host = name ++ ".") ∨ host.toList.getLast? ≠ some '.' := by
  by_cases hlast : host.toList.getLast? = some '.'
  · left
    refine ⟨withoutRoot host, ?_⟩
    rw [withoutRoot, if_pos hlast]
    apply String.toList_inj.mp
    rw [String.toList_append, String.toList_ofList]
    exact (List.dropLast_append_getLast? '.' hlast).symm
  · exact Or.inr hlast

theorem AcceptedHost.facts (h : AcceptedHost x parts host) :
    ∃ text url, x.parseUrl text = some url ∧ url.scheme = "https" ∧ url.hostStr = some host ∧
      isPublicDomain host = true := by
  have hhttps : ∀ {url : ParsedUrl}, isPublicHttps parts url host = true →
      url.scheme = "https" ∧ isPublicDomain host = true := by
    intro url hpublic
    simp only [isPublicHttps, Bool.not_eq_true', Bool.or_eq_false_iff, bne_eq_false_iff_eq,
      Bool.not_eq_false'] at hpublic
    exact ⟨hpublic.1.1.1.1.1, hpublic.2⟩
  cases h with
  | @callback query callback parsed named =>
    unfold parseCallback at parsed
    split at parsed
    · simp only [bind_eq_ok, pure_eq_ok] at parsed
      obtain ⟨-, -, hnone⟩ := parsed
      cases hnone
    · simp only [bind_eq_ok, okOr_eq_ok, ensure_eq_ok, pure_eq_ok, Bool.and_eq_true] at parsed
      obtain ⟨-, -, state, -, -, -, url, hurl, host', hhost, -, ⟨hpublic, -⟩, hcallback⟩ := parsed
      cases hcallback
      rw [named] at hhost
      cases hhost
      obtain ⟨hscheme, hdomain⟩ := hhttps hpublic
      exact ⟨_, url, hurl, hscheme, named, hdomain⟩
  | @icon raw url parsed named =>
    cases raw with
    | none => cases parsed
    | some raw =>
      obtain ⟨-, hurl, host', hhost, hpublic⟩ := parseIconUrl_eq_some.mp parsed
      rw [named] at hhost
      cases hhost
      obtain ⟨hscheme, hdomain⟩ := hhttps hpublic
      exact ⟨_, url, hurl, hscheme, named, hdomain⟩

theorem namesLocalHost_eq_false : namesLocalHost host = false ↔
    (hostChars host).contains '.' = true ∧ endsInLocal host = false ∧
      isDottedQuad host = false := by
  rw [namesLocalHost]
  simp only [Bool.or_eq_false_iff, Bool.not_eq_false', and_assoc]
  constructor
  · rintro ⟨hdot, -, hrest⟩
    exact ⟨hdot, hrest⟩
  · rintro ⟨hdot, hrest⟩
    exact ⟨hdot, ne_localhost_of_dot hdot, hrest⟩

end Hosts

/-- A host that was accepted names a local host, once its root dot is removed, exactly where
the dot stood behind a single label or behind a name in the domain `local`. The check gives one
answer for a name with and without the dot unless the name alone is refused for what it ends
in or for its four numbers. -/
theorem public_host_root_iff {x : Crates} {parts : UrlParts} (hquads : x.QuadsWithoutRoot) :
    (∀ host, AcceptedHost x parts host →
      (namesLocalHost (withoutRoot host) = false ↔ ¬ RootedLocal host)) ∧
    ∀ host, (hostChars host).contains '.' = true → host.toList.getLast? ≠ some '.' →
      (isPublicDomain host = isPublicDomain (host ++ ".") ↔
        (hostChars host).contains ':' = true ∨
          (endsInLocal host = false ∧ hasFourOctets host = false)) := by
  constructor
  · intro host haccepted
    obtain ⟨text, url, hurl, hscheme, hhost, hdomain⟩ := haccepted.facts
    rcases root_cases host with ⟨name, rfl⟩ | hroot
    · have hquad : isDottedQuad name = false := by
        rw [← Bool.not_eq_true]
        intro hquad
        have hsame := hquads text url _ hurl hscheme hhost (by rwa [withoutRoot_root])
        rw [withoutRoot_root] at hsame
        have hlength := congrArg String.length hsame
        rw [String.length_append] at hlength
        have hdot : ".".length = 1 := rfl
        omega
      rw [withoutRoot_root, namesLocalHost_eq_false]
      constructor
      · rintro ⟨hdot, hlocal, -⟩ ⟨name', hsame, hrooted⟩
        have heq : name' = name := by
          rw [← withoutRoot_root name', ← hsame, withoutRoot_root]
        subst heq
        rw [hdot, hlocal] at hrooted
        simp at hrooted
      · intro hnot
        refine ⟨?_, ?_, hquad⟩
        · by_contra hdot
          rw [Bool.not_eq_true] at hdot
          exact hnot ⟨name, rfl, Or.inl hdot⟩
        · rw [← Bool.not_eq_true]
          intro hlocal
          exact hnot ⟨name, rfl, Or.inr hlocal⟩
    · rw [withoutRoot, if_neg hroot, namesLocalHost_eq_false]
      simp only [isPublicDomain_eq, Bool.not_eq_true', Bool.or_eq_false_iff,
        Bool.not_eq_false'] at hdomain
      obtain ⟨⟨⟨⟨hdot, -⟩, hlocal⟩, -⟩, hoctets⟩ := hdomain
      constructor
      · rintro - ⟨name, rfl, -⟩
        rw [String.toList_append] at hroot
        exact hroot List.getLast?_concat
      · exact fun _ => ⟨hdot, hlocal, by rw [isDottedQuad, hoctets, Bool.false_and]⟩
  · intro host hdot _
    rw [isPublicDomain_root, isPublicDomain_eq, hdot, ne_localhost_of_dot hdot]
    cases (hostChars host).contains ':' <;> cases endsInLocal host <;>
      cases hasFourOctets host <;> decide

namespace Sample

def rootedIcon : String := "https://localhost./icon.png"

def rootedCallback : String := "https://printer.local./return"

def rootedUrl : ParsedUrl := ⟨"https", some "localhost.", "", none, none, rootedIcon⟩

def rootedCallbackUrl : ParsedUrl :=
  ⟨"https", some "printer.local.", "", none, none, rootedCallback⟩

/-- A URL parser that keeps the root dot of a name, as the URL standard has it. -/
def rootedCrates : Crates :=
  { crates with
    parseUrl := fun url =>
      if url = rootedIcon then some rootedUrl
      else if url = rootedCallback then some rootedCallbackUrl
      else none }

def rootedParts : UrlParts where
  port _ := none
  path _ := "/return"
  queryPairs _ := []

def rootedQuery : NwaQuery :=
  ⟨[("return_to", rootedCallback), ("state", "0123456789abcdef0123456789abcdef")]⟩

theorem rootedCrates_quads : rootedCrates.QuadsWithoutRoot := by
  intro text url host hurl _ hhost hquad
  have hcases : url = rootedUrl ∨ url = rootedCallbackUrl := by
    simp only [rootedCrates] at hurl
    split at hurl
    · exact Or.inl (Option.some.inj hurl).symm
    · split at hurl
      · exact Or.inr (Option.some.inj hurl).symm
      · cases hurl
  rcases hcases with rfl | rfl
  · cases hhost
    exact absurd hquad (by decide +kernel)
  · cases hhost
    exact absurd hquad (by decide +kernel)

theorem rooted_accepted : AcceptedHost rootedCrates rootedParts "localhost." ∧
    AcceptedHost rootedCrates rootedParts "printer.local." := by
  constructor
  · have hicon : parseIconUrl rootedCrates rootedParts (some rootedIcon) = some rootedUrl := by
      decide +kernel
    exact .icon hicon rfl
  · have hcallback : parseCallback rootedCrates rootedParts rootedQuery =
        .ok (some ⟨rootedCallbackUrl, "0123456789abcdef0123456789abcdef"⟩) := by decide +kernel
    exact .callback hcallback rfl

end Sample

/-- An icon of `localhost` and a callback to a printer in the local network are accepted, each
with a root dot. -/
theorem rooted_local_hosts_accepted :
    (AcceptedHost Sample.rootedCrates Sample.rootedParts "localhost." ∧
      namesLocalHost (withoutRoot "localhost.") = true) ∧
    (AcceptedHost Sample.rootedCrates Sample.rootedParts "printer.local." ∧
      namesLocalHost (withoutRoot "printer.local.") = true) ∧
    isPublicDomain "printer.local" = false ∧ isPublicDomain "printer.local." = true := by
  obtain ⟨hicon, hcallback⟩ := Sample.rooted_accepted
  refine ⟨⟨hicon, ?_⟩, ⟨hcallback, ?_⟩, ?_, ?_⟩ <;> decide +kernel

namespace Sample

def publicIcon : String := "https://shop.example.com./icon.png"

def publicUrl : ParsedUrl := ⟨"https", some "shop.example.com.", "", none, none, publicIcon⟩

def publicCrates : Crates :=
  { rootedCrates with
    parseUrl := fun url => if url = publicIcon then some publicUrl else rootedCrates.parseUrl url }

theorem publicCrates_quads : publicCrates.QuadsWithoutRoot := by
  intro text url host hurl hscheme hhost hquad
  simp only [publicCrates] at hurl
  split at hurl
  · cases hurl
    cases hhost
    exact absurd hquad (by decide +kernel)
  · exact rootedCrates_quads text url host hurl hscheme hhost hquad

theorem public_accepted : AcceptedHost publicCrates rootedParts "shop.example.com." ∧
    AcceptedHost publicCrates rootedParts "localhost." := by
  have hicons : parseIconUrl publicCrates rootedParts (some publicIcon) = some publicUrl ∧
      parseIconUrl publicCrates rootedParts (some rootedIcon) = some rootedUrl := by
    decide +kernel
  exact ⟨.icon hicons.1 rfl, .icon hicons.2 rfl⟩

end Sample

/-- Of two accepted hosts with a root dot one is public and one is local; the dot changes the
answer for a name in the domain `local` alone. -/
theorem public_host_root_iff_example :
    (AcceptedHost Sample.publicCrates Sample.rootedParts "shop.example.com." ∧
      namesLocalHost (withoutRoot "shop.example.com.") = false) ∧
    (AcceptedHost Sample.publicCrates Sample.rootedParts "localhost." ∧
      RootedLocal "localhost.") ∧
    isPublicDomain "example.com" = isPublicDomain ("example.com" ++ ".") ∧
    isPublicDomain "printer.local" ≠ isPublicDomain ("printer.local" ++ ".") := by
  obtain ⟨haccepted, hsame⟩ :=
    @public_host_root_iff Sample.publicCrates Sample.rootedParts Sample.publicCrates_quads
  obtain ⟨hpublic, hlocal⟩ := Sample.public_accepted
  refine ⟨⟨hpublic, (haccepted _ hpublic).mpr ?_⟩, ⟨hlocal, ?_⟩, ?_, ?_⟩
  · rintro ⟨name, hroot, hrooted⟩
    have hname : name = "shop.example.com" := by
      rw [← withoutRoot_root name, ← hroot]
      decide
    subst hname
    exact absurd hrooted (by decide +kernel)
  · by_contra hnot
    exact absurd ((haccepted _ hlocal).mpr hnot) (by decide +kernel)
  · apply (hsame "example.com" (by decide +kernel) (by decide)).mpr
    exact Or.inr ⟨by decide +kernel, by decide +kernel⟩
  · intro heq
    have hends := (hsame "printer.local" (by decide +kernel) (by decide)).mp heq
    exact absurd hends (by decide +kernel)

end NwcMobile
