import EdgeMulticast.Archive.Publish

/-!
# Publishing is all or nothing

Where an attempt stops (`Assembles`), what it leaves then, and from that what every sequence of
attempts for one window keeps: the object under its final name has beside it the manifest that states
it.

An attempt over a window that is published already replaces the manifest before it moves the object.
If the move fails, the clean-up takes the manifest away from the object that was there.
-/

namespace EdgeMulticast.Archive

open EdgeMulticast.Lib

section

variable {codecs : Codecs} {draft : UpstreamManifest} {compression : Compression}
  {fs fs' : Directory Path} {a : Attempt}

/-! ## The four names -/

variable (draft compression) in
def objectTmp : Path := .completed (Names.of draft compression).objectTmp

variable (draft compression) in
def manifestTmp : Path := .completed (Names.of draft compression).manifestTmp

variable (draft compression) in
def objectPath : Path := .completed (Names.of draft compression).fileName

variable (draft compression) in
def manifestPath : Path := .completed (Names.of draft compression).manifestName

variable (draft compression) in
/-- The names of a publication are four: no two are of one length. -/
theorem names_distinct :
    objectTmp draft compression ≠ manifestTmp draft compression ∧
      objectTmp draft compression ≠ objectPath draft compression ∧
      objectTmp draft compression ≠ manifestPath draft compression ∧
      manifestTmp draft compression ≠ objectPath draft compression ∧
      manifestTmp draft compression ≠ manifestPath draft compression ∧
      objectPath draft compression ≠ manifestPath draft compression := by
  have hlength : ∀ {x y : List Byte}, x.length ≠ y.length → Path.completed x ≠ .completed y :=
    fun hne heq ↦ hne (congrArg List.length (Path.completed.inj heq))
  have hdot : (ascii ".").length = 1 := rfl
  have htmp : (ascii ".tmp").length = 4 := rfl
  have hjson : (ascii ".manifest.json").length = 14 := rfl
  refine ⟨hlength ?_, hlength ?_, hlength ?_, hlength ?_, hlength ?_, hlength ?_⟩
  all_goals
    simp only [Names.of, List.length_append, hdot, htmp, hjson]
    omega

variable (draft compression) in
/-- A path that no publication of the window touches. -/
def Elsewhere (x : Path) : Prop :=
  x ≠ objectTmp draft compression ∧ x ≠ manifestTmp draft compression ∧
    x ≠ objectPath draft compression ∧ x ≠ manifestPath draft compression

variable (draft compression) in
theorem elsewhere_source : Elsewhere draft compression .source := by
  refine ⟨?_, ?_, ?_, ?_⟩ <;> exact fun h ↦ by cases h

/-! ## How far an attempt comes -/

/-- Both files were written, and the manifest was moved to its final name. -/
structure Attempt.Installs (a : Attempt) : Prop where
  openSource : a.openSource = true
  sealing : a.sealing = .done
  encode : a.encode = true
  writeManifest : a.writeManifest = .done
  moveManifest : a.moveManifest = true

variable (codecs draft compression) in
/-- What an attempt comes to, over the bytes of its object. -/
inductive Assembles (object : List Byte) (fs : Directory Path) (a : Attempt) :
    Option PublishedUpstreamObject × Bool × Directory Path → Prop
  | early {fs' : Directory Path} (h : ¬a.Installs)
      (hframe : ∀ x, x ≠ objectTmp draft compression → x ≠ manifestTmp draft compression →
        fs' x = fs x) :
      Assembles object fs a (none, false, fs')
  | late {fs' : Directory Path} (h : a.Installs) (hmove : a.moveObject = false)
      (hmanifest : fs' (manifestPath draft compression) =
        some (codecs.toJson (finished codecs draft compression object)))
      (hframe : ∀ x, x ≠ objectTmp draft compression → x ≠ manifestTmp draft compression →
        x ≠ manifestPath draft compression → fs' x = fs x) :
      Assembles object fs a (none, true, fs')
  | done {fs' : Directory Path} (h : a.Installs) (hmove : a.moveObject = true)
      (hmanifest : fs' (manifestPath draft compression) =
        some (codecs.toJson (finished codecs draft compression object)))
      (hobject : fs' (objectPath draft compression) = some object)
      (hframe : ∀ x, Elsewhere draft compression x → fs' x = fs x) :
      Assembles object fs a
        (some ⟨objectPath draft compression, finished codecs draft compression object⟩, true, fs')

variable (codecs draft compression) in
theorem land_eq (fs : Directory Path) (object : List Byte) (a : Attempt) :
    land codecs draft compression fs object a =
      if !a.encode then (none, false, fs)
      else
        let written := fs.write (manifestTmp draft compression)
          (codecs.toJson (finished codecs draft compression object)) a.writeManifest
        if !written.1 then (none, false, written.2)
        else
          let installed := written.2.rename (manifestTmp draft compression)
            (manifestPath draft compression) a.moveManifest
          if !installed.1 then (none, false, installed.2)
          else
            let moved := installed.2.rename (objectTmp draft compression)
              (objectPath draft compression) a.moveObject
            if !moved.1 then (none, true, moved.2)
            else (some ⟨objectPath draft compression, finished codecs draft compression object⟩,
              true, moved.2) := rfl

theorem land_spec {object : List Byte} (htmp : fs (objectTmp draft compression) = some object)
    (a : Attempt) (hopen : a.openSource = true) (hsealing : a.sealing = .done) :
    Assembles codecs draft compression object fs a (land codecs draft compression fs object a) := by
  obtain ⟨hom, hoo, hof, hmo, hmf, hfinal⟩ := names_distinct draft compression
  rw [land_eq]
  cases hencode : a.encode with
  | false => exact .early (fun h ↦ Bool.noConfusion (hencode.symm.trans h.encode)) fun _ _ _ ↦ rfl
  | true =>
  rw [if_neg (by decide)]
  generalize hjson : codecs.toJson (finished codecs draft compression object) = json
  cases hwrite : a.writeManifest with
  | refused => exact .early (fun h ↦ by cases hwrite.symm.trans h.writeManifest) fun _ _ _ ↦ rfl
  | cut left =>
      refine .early (fun h ↦ by cases hwrite.symm.trans h.writeManifest) fun x _ hx ↦ ?_
      exact Directory.write_of_ne hx (.cut left)
  | done =>
  have hwritten : (fs.write (manifestTmp draft compression) json .done).2
      (manifestTmp draft compression) = some json := Directory.write_done
  have hwhole : (fs.write (manifestTmp draft compression) json .done).1 = true := rfl
  have hframe₁ : ∀ x, x ≠ manifestTmp draft compression →
      (fs.write (manifestTmp draft compression) json .done).2 x = fs x :=
    fun x hx ↦ Directory.write_of_ne hx .done
  dsimp only
  rw [hwhole, if_neg (by decide)]
  generalize (fs.write (manifestTmp draft compression) json .done).2 = fs₁ at hframe₁ hwritten ⊢
  cases hmoveManifest : a.moveManifest with
  | false =>
      exact .early (fun h ↦ by cases hmoveManifest.symm.trans h.moveManifest) fun x _ hx ↦
        hframe₁ x hx
  | true =>
  have hframe₂ : ∀ x, x ≠ manifestTmp draft compression → x ≠ manifestPath draft compression →
      (fs₁.rename (manifestTmp draft compression) (manifestPath draft compression) true).2 x = fs x :=
    fun x hx hx' ↦ (Directory.rename_of_ne hx hx').trans (hframe₁ x hx)
  have hinstalled := Directory.rename_target hwritten hmf.symm
  rw [Directory.rename_ok (by rw [hwritten]; rfl), if_neg (by decide)]
  generalize (fs₁.rename (manifestTmp draft compression) (manifestPath draft compression) true).2 =
    fs₂ at hframe₂ hinstalled ⊢
  have htmp₂ := (hframe₂ _ hom hof).trans htmp
  have hinstalls : a.Installs := ⟨hopen, hsealing, hencode, hwrite, hmoveManifest⟩
  rw [Directory.rename_ok (by rw [htmp₂]; rfl)]
  cases hmoveObject : a.moveObject with
  | false =>
      refine .late hinstalls hmoveObject (hjson ▸ hinstalled) fun x _ hx hx' ↦ hframe₂ x hx hx'
  | true =>
      refine .done hinstalls hmoveObject ?_ (Directory.rename_target htmp₂ hoo.symm) fun x hx ↦ ?_
      · rw [hjson]
        exact (Directory.rename_of_ne hof.symm hfinal.symm).trans hinstalled
      · exact (Directory.rename_of_ne hx.1 hx.2.2.1).trans (hframe₂ x hx.2.1 hx.2.2.2)

/-- The temporary object does not count. -/
theorem Assembles.of_frame {object : List Byte}
    {r : Option PublishedUpstreamObject × Bool × Directory Path}
    (hframe : ∀ x, x ≠ objectTmp draft compression → fs' x = fs x)
    (h : Assembles codecs draft compression object fs' a r) :
    Assembles codecs draft compression object fs a r := by
  cases h with
  | early h hkept => exact .early h fun x hx hx' ↦ (hkept x hx hx').trans (hframe x hx)
  | late h hmove hmanifest hkept =>
      exact .late h hmove hmanifest fun x hx hx' hx'' ↦ (hkept x hx hx' hx'').trans (hframe x hx)
  | done h hmove hmanifest hobject hkept =>
      exact .done h hmove hmanifest hobject fun x hx ↦ (hkept x hx).trans (hframe x hx.1)

variable (codecs draft compression) in
theorem assemble_spec {segment : List Byte} (hsource : fs .source = some segment) (a : Attempt) :
    Assembles codecs draft compression (codecs.sealed compression segment) fs a
      (assemble codecs draft compression fs a) := by
  rw [assemble, «seal», hsource]
  dsimp only
  generalize codecs.sealed compression segment = object
  cases hopen : a.openSource with
  | false => exact .early (fun h ↦ Bool.noConfusion (hopen.symm.trans h.openSource)) fun _ _ _ ↦ rfl
  | true =>
  cases hsealing : a.sealing with
  | refused => exact .early (fun h ↦ by cases hsealing.symm.trans h.sealing) fun _ _ _ ↦ rfl
  | cut left =>
      refine .early (fun h ↦ by cases hsealing.symm.trans h.sealing) fun x hx _ ↦ ?_
      exact Directory.write_of_ne hx (.cut left)
  | done =>
      have hframe : ∀ x, x ≠ objectTmp draft compression →
          (fs.write (objectTmp draft compression) object .done).2 x = fs x :=
        fun x hx ↦ Directory.write_of_ne hx .done
      exact (land_spec Directory.write_done a hopen hsealing).of_frame hframe

/-! ## What an attempt leaves -/

variable (codecs draft compression) in
/-- The object under its final name has the manifest beside it that states its digest and length. -/
def Stated (fs : Directory Path) : Prop :=
  ∀ object, fs (objectPath draft compression) = some object →
    fs (manifestPath draft compression) =
      some (codecs.toJson (finished codecs draft compression object))

variable (codecs draft compression) in
/-- What an attempt that came to a result owes to what was there before it. -/
structure Leaves (fs : Directory Path) (a : Attempt)
    (r : Option PublishedUpstreamObject × Directory Path) : Prop where
  stated : Stated codecs draft compression r.2
  whole : r.1 ≠ none →
    r.2 (objectPath draft compression) ≠ none ∧ r.2 (manifestPath draft compression) ≠ none
  objectTmp_gone : r.1 = none → a.removeObjectTmp = true → r.2 (objectTmp draft compression) = none
  manifestTmp_gone : r.1 = none → a.removeManifestTmp = true →
    r.2 (manifestTmp draft compression) = none
  published : fs (objectPath draft compression) ≠ none →
    r.2 (objectPath draft compression) ≠ none ∧ r.2 (manifestPath draft compression) ≠ none
  elsewhere : ∀ x, Elsewhere draft compression x → r.2 x = fs x

variable (draft compression) in
/-- The attempt does not fail at the last move, over a window that is published, in such a way that
the manifest is then removed; and it does not fail before it starts while a temporary file of an
earlier attempt is there to be removed. -/
structure Meets (fs : Directory Path) (a : Attempt) : Prop where
  lastMove : fs (objectPath draft compression) ≠ none → a.createDir = true → a.Installs →
    a.moveObject = false → a.removeManifest = false
  firstStep : a.createDir = false →
    (a.removeObjectTmp = true → fs (objectTmp draft compression) = none) ∧
      (a.removeManifestTmp = true → fs (manifestTmp draft compression) = none)

variable (codecs draft compression) in
/-- What holds between two attempts: the segment is there, and an object is that of the segment and
stated. -/
structure Between (segment : List Byte) (fs : Directory Path) : Prop where
  source : fs .source = some segment
  sealed : ∀ object, fs (objectPath draft compression) = some object →
    object = codecs.sealed compression segment
  stated : Stated codecs draft compression fs

/-! ## The clean-up -/

theorem cleanUp_of_ne {x : Path} {installed : Bool} (ho : x ≠ objectTmp draft compression)
    (hm : x ≠ manifestTmp draft compression)
    (hf : installed = true → x ≠ manifestPath draft compression) :
    cleanUp draft compression fs installed a x = fs x := by
  have htmp : (fs.remove (objectTmp draft compression) a.removeObjectTmp).remove
      (manifestTmp draft compression) a.removeManifestTmp x = fs x :=
    (Directory.remove_of_ne hm).trans (Directory.remove_of_ne ho)
  cases installed with
  | false => exact htmp
  | true => exact (Directory.remove_of_ne (hf rfl)).trans htmp

theorem cleanUp_objectTmp {installed : Bool} (h : a.removeObjectTmp = true) :
    cleanUp draft compression fs installed a (objectTmp draft compression) = none := by
  obtain ⟨hom, -, hof, -⟩ := names_distinct draft compression
  have hgone : (fs.remove (objectTmp draft compression) a.removeObjectTmp).remove
      (manifestTmp draft compression) a.removeManifestTmp (objectTmp draft compression) = none := by
    rw [Directory.remove_of_ne hom, h, Directory.remove_true]
  cases installed with
  | false => exact hgone
  | true => exact (Directory.remove_of_ne hof).trans hgone

theorem cleanUp_manifestTmp {installed : Bool} (h : a.removeManifestTmp = true) :
    cleanUp draft compression fs installed a (manifestTmp draft compression) = none := by
  obtain ⟨-, -, -, -, hmf, -⟩ := names_distinct draft compression
  have hgone : (fs.remove (objectTmp draft compression) a.removeObjectTmp).remove
      (manifestTmp draft compression) a.removeManifestTmp (manifestTmp draft compression) = none := by
    rw [h, Directory.remove_true]
  cases installed with
  | false => exact hgone
  | true => exact (Directory.remove_of_ne hmf).trans hgone

theorem cleanUp_manifest : cleanUp draft compression fs true a (manifestPath draft compression) =
    if a.removeManifest then none else fs (manifestPath draft compression) := by
  obtain ⟨-, -, hof, -, hmf, -⟩ := names_distinct draft compression
  change ((fs.remove (objectTmp draft compression) a.removeObjectTmp).remove
    (manifestTmp draft compression) a.removeManifestTmp).remove (manifestPath draft compression)
      a.removeManifest (manifestPath draft compression) = _
  cases a.removeManifest with
  | false =>
      exact (Directory.remove_of_ne hmf.symm).trans (Directory.remove_of_ne hof.symm)
  | true => exact Directory.remove_true

/-! ## One attempt -/

theorem Between.manifest_ne {segment : List Byte} (h : Between codecs draft compression segment fs)
    (hobject : fs (objectPath draft compression) ≠ none) :
    fs (manifestPath draft compression) ≠ none := by
  obtain ⟨object, hsome⟩ := Option.ne_none_iff_exists'.mp hobject
  rw [h.stated object hsome]
  exact Option.some_ne_none _

/-- An attempt that leaves both final names as they were. -/
theorem Between.unchanged {segment : List Byte} (h : Between codecs draft compression segment fs)
    (hobject : fs' (objectPath draft compression) = fs (objectPath draft compression))
    (hmanifest : fs' (manifestPath draft compression) = fs (manifestPath draft compression))
    (hsource : fs' .source = fs .source) : Between codecs draft compression segment fs' := by
  refine ⟨hsource.trans h.source, fun object ho ↦ h.sealed object (hobject.symm.trans ho), ?_⟩
  intro object ho
  rw [hmanifest]
  exact h.stated object (hobject.symm.trans ho)

variable (codecs draft compression) in
/-- An attempt does what it owes exactly when it meets the condition. -/
theorem publish_spec {segment : List Byte} (h : Between codecs draft compression segment fs)
    (a : Attempt) :
    (Leaves codecs draft compression fs a (publish codecs draft compression fs a) ↔
      Meets draft compression fs a) ∧
    (Meets draft compression fs a →
      Between codecs draft compression segment (publish codecs draft compression fs a).2) := by
  obtain ⟨hom, hoo, hof, hmo, hmf, hfinal⟩ := names_distinct draft compression
  cases hcreate : a.createDir with
  | false =>
      have hpublish : publish codecs draft compression fs a = (none, fs) := by
        rw [publish, hcreate]
        rfl
      rw [hpublish]
      refine ⟨⟨fun hl ↦ ⟨fun _ hc ↦ Bool.noConfusion (hcreate.symm.trans hc), fun _ ↦
        ⟨hl.objectTmp_gone rfl, hl.manifestTmp_gone rfl⟩⟩, fun hm ↦ ?_⟩, fun _ ↦ h⟩
      exact ⟨h.stated, fun hne ↦ absurd rfl hne, fun _ ↦ (hm.firstStep hcreate).1,
        fun _ ↦ (hm.firstStep hcreate).2, fun ho ↦ ⟨ho, h.manifest_ne ho⟩, fun _ _ ↦ rfl⟩
  | true =>
  have hfirst : ¬a.createDir = false := by rw [hcreate]; decide
  have hspec := assemble_spec codecs draft compression h.source a
  generalize hr : assemble codecs draft compression fs a = r at hspec
  cases hspec with
  | @early fs₁ hnot hframe =>
      have hpublish : publish codecs draft compression fs a =
          (none, cleanUp draft compression fs₁ false a) := by
        rw [publish, hcreate, hr]
        rfl
      have hkept : ∀ x, x ≠ objectTmp draft compression → x ≠ manifestTmp draft compression →
          cleanUp draft compression fs₁ false a x = fs x := fun x ho hm ↦
        (cleanUp_of_ne ho hm Bool.noConfusion).trans (hframe x ho hm)
      have hobject := hkept _ hoo.symm hmo.symm
      have hmanifest := hkept _ hof.symm hmf.symm
      have hsource := hkept .source (by exact nofun) (by exact nofun)
      have hbetween := h.unchanged hobject hmanifest hsource
      have hgone : a.removeObjectTmp = true →
          cleanUp draft compression fs₁ false a (objectTmp draft compression) = none :=
        cleanUp_objectTmp
      have hgone' : a.removeManifestTmp = true →
          cleanUp draft compression fs₁ false a (manifestTmp draft compression) = none :=
        cleanUp_manifestTmp
      rw [hpublish]
      refine ⟨⟨fun _ ↦ ⟨fun _ _ hi ↦ absurd hi hnot, fun hc ↦ absurd hc hfirst⟩, fun _ ↦ ?_⟩,
        fun _ ↦ hbetween⟩
      refine ⟨hbetween.stated, fun hne ↦ absurd rfl hne, fun _ ↦ hgone,
        fun _ ↦ hgone', fun ho ↦ ?_, fun x hx ↦ hkept x hx.1 hx.2.1⟩
      have ho' := hobject ▸ ho
      exact ⟨ho', hbetween.manifest_ne ho'⟩
  | @late fs₁ hinstalls hmove hinstalled hframe =>
      have hpublish : publish codecs draft compression fs a =
          (none, cleanUp draft compression fs₁ true a) := by
        rw [publish, hcreate, hr]
        rfl
      have hkept : ∀ x, x ≠ objectTmp draft compression → x ≠ manifestTmp draft compression →
          x ≠ manifestPath draft compression → cleanUp draft compression fs₁ true a x = fs x :=
        fun x ho hm hf ↦ (cleanUp_of_ne ho hm fun _ ↦ hf).trans (hframe x ho hm hf)
      have hobject := hkept _ hoo.symm hmo.symm hfinal
      have hmanifest : cleanUp draft compression fs₁ true a (manifestPath draft compression) =
          if a.removeManifest then none else some (codecs.toJson (finished codecs draft compression
            (codecs.sealed compression segment))) := by rw [cleanUp_manifest, hinstalled]
      have hsource := hkept .source (by exact nofun) (by exact nofun) (by exact nofun)
      have hstated (hm : fs (objectPath draft compression) ≠ none → a.removeManifest = false) :
          Stated codecs draft compression (cleanUp draft compression fs₁ true a) := by
        intro object ho
        rw [hobject] at ho
        have hkeep := hm (by rw [ho]; exact Option.some_ne_none _)
        rw [hmanifest, hkeep, h.sealed object ho]
        rfl
      have hgone : a.removeObjectTmp = true →
          cleanUp draft compression fs₁ true a (objectTmp draft compression) = none :=
        cleanUp_objectTmp
      have hgone' : a.removeManifestTmp = true →
          cleanUp draft compression fs₁ true a (manifestTmp draft compression) = none :=
        cleanUp_manifestTmp
      rw [hpublish]
      refine ⟨⟨fun hl ↦ ⟨fun ho _ _ _ ↦ ?_, fun hc ↦ absurd hc hfirst⟩, fun hm ↦ ?_⟩, fun hm ↦ ?_⟩
      · have hkeep := (hl.published ho).2
        dsimp only at hkeep
        rw [hmanifest] at hkeep
        cases hremove : a.removeManifest with
        | false => rfl
        | true =>
            rw [hremove] at hkeep
            exact absurd rfl hkeep
      · have hkeep := fun ho ↦ hm.lastMove ho hcreate hinstalls hmove
        refine ⟨hstated hkeep, fun hne ↦ absurd rfl hne, fun _ ↦ hgone,
          fun _ ↦ hgone', fun ho ↦ ⟨hobject.trans_ne ho, ?_⟩,
          fun x hx ↦ hkept x hx.1 hx.2.1 hx.2.2.2⟩
        dsimp only
        rw [hmanifest, hkeep ho]
        exact Option.some_ne_none _
      · refine ⟨hsource.trans h.source, fun object ho ↦ h.sealed object (hobject ▸ ho), hstated ?_⟩
        exact fun ho ↦ hm.lastMove ho hcreate hinstalls hmove
  | @done fs₁ hinstalls hmove hinstalled hobject hframe =>
      have hpublish : publish codecs draft compression fs a =
          (some ⟨objectPath draft compression, finished codecs draft compression
            (codecs.sealed compression segment)⟩, fs₁) := by
        rw [publish, hcreate, hr]
        rfl
      have hboth : fs₁ (objectPath draft compression) ≠ none ∧
          fs₁ (manifestPath draft compression) ≠ none := by
        rw [hobject, hinstalled]
        exact ⟨Option.some_ne_none _, Option.some_ne_none _⟩
      have hbetween : Between codecs draft compression segment fs₁ := by
        have hsealed : ∀ object, fs₁ (objectPath draft compression) = some object →
            object = codecs.sealed compression segment := fun object ho ↦
          Option.some.inj (ho.symm.trans hobject)
        refine ⟨(hframe _ (elsewhere_source draft compression)).trans h.source, hsealed, ?_⟩
        intro object ho
        rw [hinstalled, hsealed object ho]
      rw [hpublish]
      refine ⟨⟨fun _ ↦ ⟨fun _ _ _ hm ↦ Bool.noConfusion (hm.symm.trans hmove),
        fun hc ↦ absurd hc hfirst⟩, fun _ ↦ ?_⟩, fun _ ↦ hbetween⟩
      exact ⟨hbetween.stated, fun _ ↦ hboth, fun hn ↦ absurd hn (Option.some_ne_none _),
        fun hn ↦ absurd hn (Option.some_ne_none _), fun _ ↦ hboth, hframe⟩

/-! ## Every sequence of attempts -/

/-- What is there before the first attempt: the segment, and other files of the directory. -/
def beforeAny (draft : UpstreamManifest) (compression : Compression) (segment : List Byte)
    (others : List Byte → Option (List Byte)) : Directory Path
  | .source => some segment
  | .completed name =>
      let names := Names.of draft compression
      if name = names.fileName ∨ name = names.manifestName ∨ name = names.objectTmp ∨
          name = names.manifestTmp then none
      else others name

variable (codecs draft compression) in
/-- A property of each attempt of a sequence and the files it finds. -/
def Along (P : Directory Path → Attempt → Prop) : Directory Path → List Attempt → Prop
  | _, [] => True
  | fs, a :: attempts =>
      P fs a ∧ Along P (publish codecs draft compression fs a).2 attempts

variable (codecs draft compression) in
theorem along_iff {segment : List Byte} (attempts : List Attempt)
    (h : Between codecs draft compression segment fs) :
    Along codecs draft compression (fun fs a ↦ Leaves codecs draft compression fs a
      (publish codecs draft compression fs a)) fs attempts ↔
      Along codecs draft compression (Meets draft compression) fs attempts := by
  induction attempts generalizing fs with
  | nil => exact Iff.rfl
  | cons a attempts ih =>
      obtain ⟨hiff, hnext⟩ := publish_spec codecs draft compression h a
      exact and_congr_left_iff.mpr (fun _ ↦ hiff) |>.trans
        (and_congr_right fun hm ↦ ih (hnext hm))

variable (codecs draft compression) in
theorem between_beforeAny (segment : List Byte) (others : List Byte → Option (List Byte)) :
    Between codecs draft compression segment (beforeAny draft compression segment others) := by
  have hnone : beforeAny draft compression segment others (objectPath draft compression) = none :=
    if_pos (.inl rfl)
  refine ⟨rfl, fun object ho ↦ ?_, fun object ho ↦ ?_⟩
  · cases hnone.symm.trans ho
  · cases hnone.symm.trans ho

/-- **Publishing is all or nothing and harmless to retry, in every sequence of attempts for one window
and in none but those whose attempts all meet the condition.** -/
theorem publish_all_or_nothing (codecs : Codecs) (draft : UpstreamManifest)
    (compression : Compression) (segment : List Byte) (others : List Byte → Option (List Byte))
    (attempts : List Attempt) :
    Along codecs draft compression (fun fs a ↦ Leaves codecs draft compression fs a
      (publish codecs draft compression fs a)) (beforeAny draft compression segment others)
      attempts ↔
    Along codecs draft compression (Meets draft compression)
      (beforeAny draft compression segment others) attempts :=
  along_iff codecs draft compression attempts
    (between_beforeAny codecs draft compression segment others)

end

/-! ## A retry that fails at the last move -/

def someCodecs : Codecs := ⟨fun _ bytes ↦ bytes, fun _ ↦ [], fun m ↦ m.objectKey⟩

def someDraft : UpstreamManifest where
  formatVersion := 1
  site := ascii "site"
  recorder := ascii "recorder"
  env := ascii "env"
  feed := ascii "feed"
  observation := ascii "observation"
  connections := []
  segmentSeq := 3
  startNs := 1
  endNs := 2
  messageCount := 0
  objectKey := []
  sha256 := []
  byteCount := 0

/-- Every operation happens. -/
def smooth : Attempt where
  createDir := true
  openSource := true
  sealing := .done
  encode := true
  writeManifest := .done
  moveManifest := true
  moveObject := true
  removeObjectTmp := true
  removeManifestTmp := true
  removeManifest := true

def lastMoveFails : Attempt := { smooth with moveObject := false }

/-- What an attempt and a retry of it leave of a segment of one byte. -/
def retried : Directory Path :=
  let start := beforeAny someDraft .none [7] fun _ ↦ none
  let published := (publish someCodecs someDraft .none start smooth).2
  (publish someCodecs someDraft .none published lastMoveFails).2

/-- The object that was published is there, and its manifest is not. -/
theorem not_along_retried :
    retried (objectPath someDraft .none) = some [7] ∧
      retried (manifestPath someDraft .none) = none ∧
      ¬Along someCodecs someDraft .none (fun fs a ↦ Leaves someCodecs someDraft .none fs a
        (publish someCodecs someDraft .none fs a)) (beforeAny someDraft .none [7] fun _ ↦ none)
        [smooth, lastMoveFails] := by
  have hobject : retried (objectPath someDraft .none) = some [7] := by decide +kernel
  have hmanifest : retried (manifestPath someDraft .none) = none := by decide +kernel
  refine ⟨hobject, hmanifest, fun h ↦ ?_⟩
  cases (h.2.1.stated [7] hobject).symm.trans hmanifest

end EdgeMulticast.Archive
