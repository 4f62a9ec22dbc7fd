import ComponentMarkup.Text.ClusterTable

/-!
# User-perceived characters

What a reader takes for one character can be several: a letter with its accents, a syllable block, a
flag, a joined sequence of pictographs.  `clusters` cuts a text into these by the extended grapheme
cluster rules of Unicode.  Whether the next character still belongs to a cluster is decided by that
character and the cluster so far.
-/

namespace ComponentMarkup.Text

/-- The classes of characters that the cluster rules tell apart. -/
inductive ClusterClass where
  | carriageReturn | lineFeed | control
  | extend | joiner | spacing | prepend
  | regional
  | leading | vowel | trailing | openSyllable | closedSyllable
  | other
  deriving DecidableEq, Repr

/-- The class of a character. -/
def ClusterClass.ofChar (c : Char) : ClusterClass :=
  let n := c.toNat
  if n = 0x0D then .carriageReturn
  else if n = 0x0A then .lineFeed
  else if 0x20 ≤ n && n ≤ 0x7E then .other
  else if clusterControl.contains c then .control
  else if n = 0x200D then .joiner
  else if clusterExtend.contains c then .extend
  else if clusterSpacing.contains c then .spacing
  else if clusterPrepend.contains c then .prepend
  else if 0x1F1E6 ≤ n && n ≤ 0x1F1FF then .regional
  else if (0x1100 ≤ n && n ≤ 0x115F) || (0xA960 ≤ n && n ≤ 0xA97C) then .leading
  else if (0x1160 ≤ n && n ≤ 0x11A7) || (0xD7B0 ≤ n && n ≤ 0xD7C6) || n = 0x16D63 ||
      (0x16D67 ≤ n && n ≤ 0x16D6A) then .vowel
  else if (0x11A8 ≤ n && n ≤ 0x11FF) || (0xD7CB ≤ n && n ≤ 0xD7FB) then .trailing
  else if 0xAC00 ≤ n && n ≤ 0xD7A3 then
    if (n - 0xAC00) % 28 = 0 then .openSyllable else .closedSyllable
  else .other

/-- Classes that always stand alone. -/
def ClusterClass.isolates : ClusterClass → Bool
  | .carriageReturn | .lineFeed | .control => true
  | _ => false

/-- Whether the parts of a syllable block `a`, `b` stay together. -/
def ClusterClass.sameSyllable : ClusterClass → ClusterClass → Bool
  | .leading, .leading | .leading, .vowel | .leading, .openSyllable | .leading, .closedSyllable => true
  | .openSyllable, .vowel | .openSyllable, .trailing | .vowel, .vowel | .vowel, .trailing => true
  | .closedSyllable, .trailing | .trailing, .trailing => true
  | _, _ => false

/-- Whether a cluster, last character first, ends in a consonant with a linker after it, so that a
consonant may follow. -/
def endsInLinkedConsonant (cluster : List Char) : Bool :=
  let isMark := fun c => conjunctLinker.contains c || conjunctExtend.contains c
  (cluster.takeWhile isMark).any conjunctLinker.contains &&
    (cluster.dropWhile isMark).head?.any conjunctConsonant.contains

/-- Whether a cluster, last character first, ends in a pictograph with a joiner after it, so that a
pictograph may follow. -/
def endsInJoinedPictograph : List Char → Bool
  | [] => false
  | c :: cs =>
    ClusterClass.ofChar c == .joiner &&
      (cs.dropWhile fun d => ClusterClass.ofChar d == .extend).head?.any pictographic.contains

/-- Whether a character belongs to the cluster before it, given last character first. -/
def joinsCluster (cluster : List Char) (c : Char) : Bool :=
  match cluster with
  | [] => false
  | last :: _ =>
    let a := ClusterClass.ofChar last
    let b := ClusterClass.ofChar c
    if a == .carriageReturn && b == .lineFeed then true
    else if a.isolates || b.isolates then false
    else if ClusterClass.sameSyllable a b then true
    else if b == .extend || b == .joiner || b == .spacing then true
    else if a == .prepend then true
    else if conjunctConsonant.contains c && endsInLinkedConsonant cluster then true
    else if pictographic.contains c && endsInJoinedPictograph cluster then true
    else
      b == .regional && runLengthOf cluster % 2 == 1
where
  /-- The number of regional indicators at the end of the cluster. -/
  runLengthOf (cluster : List Char) : Nat :=
    (cluster.takeWhile fun d => ClusterClass.ofChar d == .regional).length

/-- Cuts a text into clusters, the current one given last character first. -/
def cutClusters (cluster : List Char) : List Char → List (List Char)
  | [] => if cluster.isEmpty then [] else [cluster.reverse]
  | c :: cs =>
    if cluster.isEmpty || joinsCluster cluster c then cutClusters (c :: cluster) cs
    else cluster.reverse :: cutClusters [c] cs

/-- The clusters of a text, in order. -/
def clusters (cs : List Char) : List (List Char) :=
  cutClusters [] cs

end ComponentMarkup.Text
