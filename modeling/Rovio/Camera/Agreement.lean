import Rovio.Camera.Control

/-! The drivers are set as the thread has noted, and what it has noted is what was asked for last,
once the messages are told. -/
namespace Rovio.Controls
open Kit

/-! ### The functions of `W99702Camera.c` -/

/-- The sizes by `ucResolution`. -/
def imageSize : Nat → Nat × Nat
  | 0 => (176, 144)
  | 1 => (320, 240)
  | 2 => (352, 288)
  | _ => (640, 480)

/-- What the camera makes of a setting: H.263 has no other sizes, and other values are not taken. -/
def taken (h263 : Bool) (value : BitVec 32) : Setting → Option Nat
  | .resolution =>
    if value.toNat ≤ 3 then some (if h263 ∧ value.toNat % 2 = 1 then 2 else value.toNat) else none
  | .quality => if value.toNat ≤ 2 then some value.toNat else none
  | .framerate => if 0 < value.toNat ∧ value.toNat < 100 then some value.toNat else none
  | .brightness | .speakerVolume | .micVolume => some (value.toNat % 256)

/-- The settings that the audio device may refuse. -/
def Setting.audio : Setting → Bool
  | .speakerVolume | .micVolume => true
  | _ => false

/-- The thread has noted settings that there are. -/
structure Noted (g : WebCamState) : Prop where
  resolution : g .resolution ≤ 3
  quality : g .quality ≤ 2
  char : ∀ setting, g setting < 256

/-- The drivers are set as noted. At the start they have their own values, and the notes are 0. -/
structure Agree (d : Drivers) (g : WebCamState) : Prop where
  size : d.sPlanarSize = imageSize (g .resolution)
  jpeg : d.nJPEGQua = 3 - g.int .quality ∨ g .quality = 0 ∧ d.nJPEGQua = 2
  rate : g .framerate = 0 ∨ d.uEncFrameRateStatic = g.int .framerate

section
variable {d d' : Drivers} {g g' : WebCamState} {h263 : Bool}

theorem getImageResolution (noted : Noted g) :
    W99702_GetImageResolution g = some (imageSize (g .resolution)) := by
  unfold W99702_GetImageResolution
  have known := noted.resolution
  generalize g .resolution = n at known ⊢
  match n, known with
  | 0, _ | 1, _ | 2, _ | 3, _ => rfl

theorem imageSize_injective {m n : Nat} (hm : m ≤ 3) (hn : n ≤ 3)
    (same : imageSize m = imageSize n) : m = n := by
  match m, n, hm, hn with
  | 0, 0, _, _ | 1, 1, _, _ | 2, 2, _, _ | 3, 3, _, _ => rfl
  | 0, 1, _, _ | 0, 2, _, _ | 0, 3, _, _ | 1, 0, _, _ | 1, 2, _, _ | 1, 3, _, _
  | 2, 0, _, _ | 2, 1, _, _ | 2, 3, _, _ | 3, 0, _, _ | 3, 1, _, _ | 3, 2, _, _ => cases same

theorem int_toNat (noted : Noted g) (setting : Setting) : (g.int setting).toNat = g setting := by
  have char := noted.char setting
  rw [WebCamState.int, BitVec.toNat_ofNat]
  omega

theorem toInt_small (value : BitVec 32) (small : value.toNat < 2147483648) :
    value.toInt = value.toNat :=
  BitVec.toInt_eq_toNat_of_lt (by omega)

/-- The bit rate leaves the other settings. -/
theorem setVideoBitRate (d : Drivers) (bitrate : BitVec 32) :
    ∃ uEncBitRate, wb702SetVideoBitRate d bitrate = { d with uEncBitRate } := by
  unfold wb702SetVideoBitRate vmp4encSetQuality
  split
  · exact ⟨d.uEncBitRate, rfl⟩
  · exact ⟨bitrate, rfl⟩

theorem bitrateTable : ∀ row < 4, ∀ q < 3,
    ((aaBitrateTable[row]?).bind fun bitrates => bitrates[q]?).isSome = true := by
  decide

/-- A quality that there is is set, with the bit rate for it. -/
theorem setImageQuality (d : Drivers) {iQuality : BitVec 32} (small : iQuality.toNat ≤ 2)
    (iResX : Nat) :
    ∃ uEncBitRate, _W99702_SetImageQuality d iQuality iResX =
      some ({ d with nJPEGQua := 3 - iQuality, uEncBitRate }, true) := by
  have int := toInt_small iQuality (by omega)
  have jpeg : wb702SetJPEGQuality d iQuality = { d with nJPEGQua := 3 - iQuality } := by
    unfold wb702SetJPEGQuality
    rw [if_neg (by omega)]
  have rows : (if iResX ≤ 176 then 0 else if iResX ≤ 320 then 1 else if iResX ≤ 352 then 2
      else 3) < 4 := by
    split_ifs <;> decide
  obtain ⟨bitrate, entry⟩ := Option.isSome_iff_exists.mp
    (bitrateTable _ rows iQuality.toNat (by omega))
  obtain ⟨uEncBitRate, set⟩ :=
    setVideoBitRate { d with nJPEGQua := 3 - iQuality } (.ofNat 32 bitrate)
  refine ⟨uEncBitRate, ?_⟩
  unfold _W99702_SetImageQuality
  rw [if_neg (by omega), jpeg]
  simp only [entry, Option.map_some, set]

theorem sizes_fit : ∀ size ∈ [(176, 144), (320, 240), (352, 288), (640, 480)],
    ¬(size.1 * size.2 > MAX_MP4_WIDTHxHEIGHT ∨ size.1 = 0 ∨ size.2 = 0) := by
  decide

theorem setWindow (d : Drivers) (ucResolution : Nat) :
    wb702SetLocalVideoSource d (imageSize ucResolution).1 (imageSize ucResolution).2 =
      { d with sPlanarSize := imageSize ucResolution } := by
  have listed : imageSize ucResolution ∈ [(176, 144), (320, 240), (352, 288), (640, 480)] := by
    match ucResolution with
    | 0 | 1 | 2 | _ + 3 => simp [imageSize]
  exact if_neg (sizes_fit _ listed)

/-- A resolution that there is is set, and noted. -/
theorem setImageResolution (noted : Noted g) (agree : Agree d g) {lData : Nat} (known : lData ≤ 3) :
    ∃ d', (W99702_SetImageResolution d g (imageSize lData).1 (imageSize lData).2).map
        (Controls.noted .resolution lData g) = some (d', Function.update g .resolution lData) ∧
      Agree d' (Function.update g .resolution lData) := by
  have ratio : g .quality ≤ 2 := noted.quality
  have small : (g.int .quality).toNat ≤ 2 := (int_toNat noted .quality).symm ▸ ratio
  have char : lData % 256 = lData := Nat.mod_eq_of_lt (by omega)
  unfold W99702_SetImageResolution
  rw [getImageResolution noted, Option.bind_some]
  split
  · obtain ⟨uEncBitRate, set⟩ :=
      setImageQuality { d with sPlanarSize := imageSize lData } small (imageSize lData).1
    rw [setWindow, set]
    refine ⟨{ d with sPlanarSize := imageSize lData, nJPEGQua := 3 - g.int .quality, uEncBitRate },
      by simp [Controls.noted, char], ?_, .inl ?_, agree.rate⟩
    · simp
    · simp [WebCamState.int]
  · next same =>
    rw [not_or, not_not, not_not] at same
    have unchanged : lData = g .resolution :=
      imageSize_injective known noted.resolution (Prod.ext same.1 same.2)
    rw [unchanged, Function.update_eq_self]
    exact ⟨d, rfl, agree⟩

end

/-! ### A message -/

/-- What comes of a setting's message: the drivers agree again, nothing else is noted, and the value
is noted if the camera takes it. -/
structure SetTo (h263 : Bool) (g : WebCamState) (setting : Setting) (value : BitVec 32) (rt : Bool)
    (done : Drivers × WebCamState) : Prop where
  noted : Noted done.2
  agree : Agree done.1 done.2
  others : ∀ other, other ≠ setting → done.2 other = g other
  takes : ∀ u, (setting.audio = true → rt = true) → taken h263 value setting = some u →
    done.2 setting = u

section
variable {d d' : Drivers} {g : WebCamState} {h263 rt : Bool} {setting : Setting} {value : BitVec 32}

theorem SetTo.unchanged (noted : Noted g) (agree : Agree d g)
    (known : ∀ u, (setting.audio = true → rt = true) → taken h263 value setting = some u →
      g setting = u) : SetTo h263 g setting value rt (d, g) :=
  ⟨noted, agree, fun _ _ => rfl, known⟩

theorem Noted.update (noted : Noted g) {n : Nat} (resolution : setting = .resolution → n ≤ 3)
    (quality : setting = .quality → n ≤ 2) (char : n < 256) :
    Noted (Function.update g setting n) := by
  refine ⟨?_, ?_, fun other => ?_⟩
  · by_cases same : setting = .resolution
    · subst same
      simpa using resolution rfl
    · rw [Function.update_of_ne (Ne.symm same)]
      exact noted.resolution
  · by_cases same : setting = .quality
    · subst same
      simpa using quality rfl
    · rw [Function.update_of_ne (Ne.symm same)]
      exact noted.quality
  · by_cases same : other = setting
    · subst same
      simpa using char
    · rw [Function.update_of_ne same]
      exact noted.char other

theorem setResolution_known (d : Drivers) (g : WebCamState) {u : Nat}
    (known : taken h263 value .resolution = some u) :
    u ≤ 3 ∧ setResolution h263 d g value =
      (W99702_SetImageResolution d g (imageSize u).1 (imageSize u).2).map
        (Controls.noted .resolution u g) := by
  simp only [taken, Option.ite_none_right_eq_some, Option.some.injEq] at known
  obtain ⟨small, rfl⟩ := known
  unfold setResolution
  generalize value.toNat = n at small ⊢
  match n, small with
  | 0, _ | 1, _ | 2, _ | 3, _ => cases h263 <;> exact ⟨by decide, rfl⟩

theorem setResolution_unknown (d : Drivers) (g : WebCamState)
    (unknown : taken h263 value .resolution = none) :
    setResolution h263 d g value = some (d, g) := by
  simp only [taken, ite_eq_right_iff, reduceCtorEq, imp_false, Nat.not_le] at unknown
  unfold setResolution
  generalize value.toNat = n at unknown ⊢
  match n, unknown with
  | n + 4, _ => rfl

theorem setTo_resolution (noted : Noted g) (agree : Agree d g) :
    ∃ done, setSetting h263 d g value rt .resolution = some done ∧
      SetTo h263 g .resolution value rt done := by
  cases known : taken h263 value .resolution with
  | some u =>
    obtain ⟨small, set⟩ := setResolution_known d g known
    obtain ⟨d', done, agree'⟩ := setImageResolution noted agree small
    refine ⟨(d', Function.update g .resolution u), set.trans done, ?_, agree', ?_, ?_⟩
    · exact noted.update (fun _ => small) nofun (by omega)
    · intro other ne
      exact Function.update_of_ne ne u g
    · intro v _ takes
      cases known.symm.trans takes
      exact Function.update_self Setting.resolution u g
  | none =>
    refine ⟨(d, g), setResolution_unknown d g known, .unchanged noted agree ?_⟩
    intro u _ takes
    cases known.symm.trans takes

/-- A value that is noted already. -/
theorem noted_same (noted : Noted g) (same : value = g.int setting) (done : Bool) :
    Controls.noted setting value.toNat g (d, done) = (d, g) := by
  have char := noted.char setting
  have value' : value.toNat % 256 = g setting := by
    rw [same, int_toNat noted, Nat.mod_eq_of_lt char]
  cases done with
  | false => rfl
  | true => simp [Controls.noted, value']

theorem taken_quality {u : Nat} (takes : taken h263 value .quality = some u) :
    value.toNat ≤ 2 ∧ value.toNat = u := by
  simpa [taken] using takes

/-- A quality below 0 would have the table of bit rates read in front of its start. -/
theorem setTo_quality (noted : Noted g) (agree : Agree d g) (nonneg : 0 ≤ value.toInt) :
    ∃ done, setSetting h263 d g value rt .quality = some done ∧
      SetTo h263 g .quality value rt done := by
  have res := getImageResolution noted
  have small : value.toNat < 2147483648 := by
    have := BitVec.toInt_eq_toNat_cond value
    have := value.isLt
    split at * <;> omega
  have int := toInt_small value small
  by_cases same : value = g.int .quality
  · refine ⟨(d, g), ?_, .unchanged noted agree ?_⟩
    · simp [setSetting, W99702_SetImageQuality, same, noted_same noted rfl]
    · intro u _ takes
      rw [← (taken_quality takes).2, same, int_toNat noted]
  by_cases known : value.toNat ≤ 2
  · obtain ⟨uEncBitRate, set⟩ := setImageQuality d known (imageSize (g .resolution)).1
    have char : value.toNat % 256 = value.toNat := Nat.mod_eq_of_lt (by omega)
    refine ⟨({ d with nJPEGQua := 3 - value, uEncBitRate },
      Function.update g .quality value.toNat), ?_, ?_, ?_, ?_, ?_⟩
    · simp [setSetting, W99702_SetImageQuality, same, res, set, Controls.noted, char]
    · exact noted.update nofun (fun _ => known) (by omega)
    · exact ⟨by simpa using agree.size, .inl (by simp [WebCamState.int]),
        by simpa [WebCamState.int] using agree.rate⟩
    · intro other ne
      exact Function.update_of_ne ne value.toNat g
    · intro u _ takes
      simpa using (taken_quality takes).2
  · refine ⟨(d, g), ?_, .unchanged noted agree ?_⟩
    · have large : (3 : Int) ≤ value.toInt := by omega
      simp [setSetting, W99702_SetImageQuality, same, res, _W99702_SetImageQuality, large,
        Controls.noted]
    · intro u _ takes
      exact absurd (taken_quality takes).1 known

theorem taken_framerate {u : Nat} (takes : taken h263 value .framerate = some u) :
    (0 < value.toNat ∧ value.toNat < 100) ∧ value.toNat = u := by
  simpa [taken] using takes

theorem setTo_framerate (noted : Noted g) (agree : Agree d g) :
    ∃ done, setSetting h263 d g value rt .framerate = some done ∧
      SetTo h263 g .framerate value rt done := by
  refine ⟨_, rfl, ?_⟩
  by_cases same : value = g.int .framerate
  · have set : W99702_SetFramerate d g value = (d, true) := if_neg (not_not.mpr same)
    rw [set, noted_same noted same]
    refine .unchanged noted agree fun u _ takes => ?_
    rw [← (taken_framerate takes).2, same, int_toNat noted]
  by_cases known : 0 < value.toNat ∧ value.toNat < 100
  · have int := toInt_small value (by omega)
    have char : value.toNat % 256 = value.toNat := Nat.mod_eq_of_lt (by omega)
    have nonzero : value ≠ 0 := by
      rintro rfl
      exact absurd known.1 (by decide)
    have set : W99702_SetFramerate d g value =
        ({ d with uEncFrameRateStatic := value }, true) := by
      unfold W99702_SetFramerate wb702SetVideoFramerate vmp4encSetQuality
      rw [if_pos same, if_pos (by omega), if_neg (not_or.mpr ⟨nonzero, by omega⟩)]
    rw [set, Controls.noted, char]
    refine ⟨noted.update nofun nofun (by omega), ⟨?_, ?_, .inr ?_⟩, ?_, ?_⟩
    · simpa using agree.size
    · simpa [WebCamState.int] using agree.jpeg
    · simp [WebCamState.int]
    · intro other ne
      simp [ne]
    · intro u _ takes
      simpa using (taken_framerate takes).2
  · have set : W99702_SetFramerate d g value = (d, false) := by
      unfold W99702_SetFramerate wb702SetVideoFramerate vmp4encSetQuality
      rw [if_pos same]
      split
      · next positive =>
        refine if_pos (or_iff_not_imp_left.mpr fun nonzero => ?_)
        have : value.toNat ≠ 0 := fun h => nonzero (BitVec.eq_of_toNat_eq h)
        omega
      · rfl
    rw [set]
    refine .unchanged noted agree fun u _ takes => ?_
    exact absurd (taken_framerate takes).1 known

theorem Agree.note (agree : Agree d g) (char : setting = .brightness ∨ setting.audio = true)
    (n : Nat) : Agree d (Function.update g setting n) := by
  have others : ∀ other, other = .resolution ∨ other = .quality ∨ other = .framerate →
      Function.update g setting n other = g other := by
    intro other driver
    refine Function.update_of_ne ?_ n g
    rintro rfl
    rcases driver with rfl | rfl | rfl <;> simp [Setting.audio] at char
  refine ⟨?_, ?_, ?_⟩
  · rw [others .resolution (.inl rfl)]
    exact agree.size
  · simpa only [WebCamState.int, others .quality (.inr (.inl rfl))] using agree.jpeg
  · simpa only [WebCamState.int, others .framerate (.inr (.inr rfl))] using agree.rate

/-- The settings that are taken as they are, where the driver does not refuse them. -/
theorem setTo_char (noted : Noted g) (char : setting = .brightness ∨ setting.audio = true)
    {done : Drivers × Bool} (agree : Agree done.1 g)
    (heard : (setting.audio = true → rt = true) → done.2 = true) :
    SetTo h263 g setting value rt (Controls.noted setting value.toNat g done) := by
  have takes : taken h263 value setting = some (value.toNat % 256) := by
    cases setting <;> simp [Setting.audio, taken] at char ⊢
  have small := Nat.mod_lt value.toNat (by decide : 256 > 0)
  obtain ⟨d', bRt⟩ := done
  cases bRt with
  | false =>
    exact .unchanged noted agree fun u told _ => absurd (heard told) Bool.false_ne_true
  | true =>
    refine ⟨noted.update ?_ ?_ small, agree.note char _, ?_, ?_⟩
    · rintro rfl
      simp [Setting.audio] at char
    · rintro rfl
      simp [Setting.audio] at char
    · intro other ne
      exact Function.update_of_ne ne _ g
    · intro u _ known
      cases takes.symm.trans known
      exact Function.update_self setting _ g

variable (h263 rt) in
/-- The thread with a setting's message. -/
theorem setTo (noted : Noted g) (agree : Agree d g)
    (nonneg : setting = .quality → 0 ≤ value.toInt) :
    ∃ done, setSetting h263 d g value rt setting = some done ∧
      SetTo h263 g setting value rt done := by
  cases setting with
  | resolution => exact setTo_resolution noted agree
  | quality => exact setTo_quality noted agree (nonneg rfl)
  | framerate => exact setTo_framerate noted agree
  | brightness =>
    refine ⟨_, rfl, setTo_char noted (.inl rfl) ?_ fun _ => ?_⟩
    · unfold W99702_SetImageBrightness
      split
      · exact ⟨agree.size, agree.jpeg, agree.rate⟩
      · exact agree
    · unfold W99702_SetImageBrightness
      split <;> rfl
  | speakerVolume =>
    refine ⟨_, rfl, setTo_char noted (.inr rfl) ?_ fun heard => ?_⟩
    · unfold W99702_SetSpeakerVolume vauSetPlayVolume
      split_ifs
      · exact ⟨agree.size, agree.jpeg, agree.rate⟩
      · exact agree
      · exact agree
    · unfold W99702_SetSpeakerVolume vauSetPlayVolume
      rw [if_pos (heard rfl)]
      split <;> rfl
  | micVolume =>
    refine ⟨_, rfl, setTo_char noted (.inr rfl) ?_ fun heard => ?_⟩
    · unfold W99702_SetMicVolume vauSetRecordVolume
      split_ifs
      · exact ⟨agree.size, agree.jpeg, agree.rate⟩
      · exact agree
      · exact agree
    · unfold W99702_SetMicVolume vauSetRecordVolume
      rw [if_pos (heard rfl)]
      split <;> rfl

end

end Rovio.Controls
