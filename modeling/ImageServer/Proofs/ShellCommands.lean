import ImageServer.Proofs.Generation
import ImageServer.Proofs.ThumbInfo
import ImageServer.Thumbnail
import ImageServer.ThumbnailServer

/-! The command lines of the two thumbnail servers. The directory of the request is put on
the line as it is, so the line is the command that was meant exactly when no byte of the
directory means anything to a shell. -/

namespace ImageServer

/-- Either version of the server. -/
inductive Server where
  | thumbnail (processor : ImageProcessor)
  | older (processor : ThumbnailServer.ImageProcessor)

namespace Server

def originalImagesRoot : Server → Bytes
  | thumbnail processor => processor.originalImagesRoot
  | older processor => processor.originalImagesRoot

def thumbnailImagesRoot : Server → Bytes
  | thumbnail processor => processor.thumbnailImagesRoot
  | older processor => processor.thumbnailImagesRoot

def thumbPattern : Server → Bytes
  | thumbnail _ => ImageProcessor.thumbPattern
  | older _ => ThumbnailServer.ImageProcessor.thumbPattern

def extractThumbInfo : Server → Files → Bytes → Option ThumbInfo
  | thumbnail processor => processor.extractThumbInfo
  | older processor => processor.extractThumbInfo

def resolveImageURI (host : Host) : Server → Bytes → Processing (Option Bytes)
  | thumbnail processor => ImageServer.resolveImageURI host processor
  | older processor => ThumbnailServer.resolveImageURI host processor

end Server

/-- Letters, digits, and the four marks that a root is made of. -/
def RootByte (b : UInt8) : Prop :=
  (48 ≤ b ∧ b ≤ 57) ∨ (65 ≤ b ∧ b ≤ 90) ∨ (97 ≤ b ∧ b ≤ 122) ∨ b ∈ bytes "/-_."

instance (b : UInt8) : Decidable (RootByte b) := inferInstanceAs (Decidable (_ ∨ _))

theorem RootByte.plain {b : UInt8} (root : RootByte b) : Shell.Plain b := by
  have all : ∀ code < 256, RootByte (UInt8.ofNat code) → Shell.Plain (UInt8.ofNat code) := by decide +kernel
  simpa using all b.toNat b.toNat_lt (by simpa using root)

theorem slash_plain : Shell.Plain slash := by decide

/-- Adding and removing slashes does not change which other bytes a path has. -/
theorem plain_folder_iff (path : Bytes) :
    (∀ b ∈ appendPathSimbol2Tail (removePathSimbolAtHead path), Shell.Plain b) ↔ ∀ b ∈ path, Shell.Plain b := by
  have same (b : UInt8) : (b ∈ appendPathSimbol2Tail (removePathSimbolAtHead path) → Shell.Plain b) ↔
      (b ∈ path → Shell.Plain b) := by
    by_cases slashed : b = slash
    · subst b
      simp [slash_plain]
    · rw [mem_appendPathSimbol2Tail slashed, mem_removePathSimbolAtHead slashed]
  exact forall_congr' same

theorem read_mkdir (dirname : Bytes) : Shell.read (bytes "mkdir -p " ++ dirname) =
    Shell.scan .plain ⟨[], [Shell.literal (bytes "mkdir"), Shell.literal (bytes "-p")], none⟩ (Shell.cString dirname) := by
  have shown : Shell.cString (bytes "mkdir -p " ++ dirname) = bytes "mkdir -p " ++ Shell.cString dirname :=
    List.takeWhile_append_of_pos (by decide +kernel)
  rw [Shell.read, shown]
  rfl

/-- The line is the command that was meant exactly when the part of the directory that
comes from the request is plain. -/
theorem read_mkdir_iff {root tail : Bytes} (folder : IsFolder root) (plain : ∀ b ∈ root, RootByte b) :
    Shell.read (bytes "mkdir -p " ++ (root ++ tail)) =
      .commands [[Shell.literal (bytes "mkdir"), Shell.literal (bytes "-p"), Shell.literal (root ++ tail)]] ↔
        ∀ b ∈ tail, Shell.Plain b := by
  have notFirst : root.head? ≠ some 35 ∧ root.head? ≠ some 126 := by
    constructor <;> intro first <;> exact absurd (plain _ (List.mem_of_head? first)) (by decide)
  rw [read_mkdir]
  exact Shell.read_operand_iff _ (by simp [Shell.literal]) root tail folder.ne_nil
    (fun b member => (plain b member).plain) notFirst
namespace Server

theorem targetFolder_eq {server : Server} {files : Files} {path : Bytes} {info : ThumbInfo}
    (accepted : server.extractThumbInfo files path = some info) :
    info.targetFolder = server.thumbnailImagesRoot ++
      appendPathSimbol2Tail (removePathSimbolAtHead (requestFolder path server.thumbPattern)) := by
  cases server with
  | thumbnail processor =>
    obtain ⟨request, of, rfl⟩ := extractThumbInfo_some accepted
    simp only [SizedRequest.info, of.folder]
    rfl
  | older processor =>
    simp only [extractThumbInfo, ThumbnailServer.ImageProcessor.extractThumbInfo] at accepted
    split at accepted
    next hit =>
      rw [← Option.some.inj accepted]
      simp [thumbnailImagesRoot, requestFolder, thumbPattern, hit, Lua.sub_upto]
    next => cases accepted

end Server

namespace ThumbnailServer

section Within
variable {host : Host} {relation : World → World → Prop} (refl : ∀ world, relation world world)
  (trans : ∀ {a b c}, relation a b → relation b c → relation a c)
  (sends : ∀ message serverUrl, Exec.Within relation (sendMessage host message serverUrl))
include refl trans sends

theorem finish_within (self : ImageProcessor) (info : ThumbInfo) (flag : Bool) :
    Exec.Within relation (if (self.sendMessageFlag && flag) = true then do
      let jsonMsg ← Exec.lift (host.encode (thumbnailMessage self info))
      sendMessage host jsonMsg self.serverUrl
      pure flag else pure flag) := by
  split
  · exact .bind trans (.lift refl _) fun _ => .bind trans (sends _ _) fun _ => .pure refl _
  · exact .pure refl _

/-- What the two effects of `resizeImage` respect, the whole of it respects. -/
theorem resizeImage_within (saves : ∀ (image : Image) path, Exec.Within relation (image.save host path))
    (self : ImageProcessor) (info : ThumbInfo) : Exec.Within relation (resizeImage host self info) := by
  refine .bind trans (.get refl) fun world => ?_
  simp only
  split
  · exact .pure refl _
  refine .bind trans (.lift refl _) fun image => ?_
  split
  · refine .bind trans (.lift refl _) fun picture => ?_
    refine .bind trans (saves picture _) fun _ => ?_
    exact finish_within refl trans sends self info true
  · exact finish_within refl trans sends self info false

end Within

/-- No new command line. -/
def Commandless (before after : World) : Prop := after.executed = before.executed

theorem Commandless.refl (world : World) : Commandless world world := rfl

theorem Commandless.trans {a b c : World} (first : Commandless a b) (second : Commandless b c) : Commandless a c :=
  Eq.trans second first

theorem sendMessage_commandless (host : Host) (message serverUrl : Bytes) :
    Exec.Within Commandless (sendMessage host message serverUrl) :=
  fun world => (sendMessage_keeps host message serverUrl world).2

theorem save_commandless (host : Host) (image : Image) (path : Bytes) :
    Exec.Within Commandless (image.save host path) := by
  intro world
  unfold Image.save
  split <;> rfl

theorem resizeImage_commandless (host : Host) (self : ImageProcessor) (info : ThumbInfo) :
    Exec.Within Commandless (resizeImage host self info) :=
  resizeImage_within Commandless.refl .trans (sendMessage_commandless host) (save_commandless host) self info

theorem extractThumbInfo_thumb {self : ImageProcessor} {files : Files} {oriRequestPath : Bytes} {info : ThumbInfo}
    (accepted : self.extractThumbInfo files oriRequestPath = some info) : info.isThumbRequest = true := by
  unfold ImageProcessor.extractThumbInfo at accepted
  split at accepted
  · cases accepted; rfl
  · cases accepted

/-- Only the messages of a world are other ones. -/
def Told (before after : World) : Prop := after.files = before.files ∧ after.executed = before.executed

/-- An accepted request comes to its last part with nothing done but a message. -/
theorem resolveImageURI_told {host : Host} {self : ImageProcessor} {oriRequestPath : Bytes} {world : World} {info : ThumbInfo}
    (accepted : self.extractThumbInfo world.files oriRequestPath = some info) :
    ∃ told, Told world told ∧ resolveImageURI host self oriRequestPath world = generateAndAnswer host self info told := by
  have thumb := extractThumbInfo_thumb accepted
  simp only [resolveImageURI, Exec.bind_run, Exec.get_run, accepted, thumb, Bool.not_true, Bool.false_eq_true, if_false]
  split
  · exact ⟨_, sendMessage_keeps host (bytes "null") self.serverUrl world, rfl⟩
  · exact ⟨world, ⟨rfl, rfl⟩, rfl⟩

theorem generateAndAnswer_absent {host : Host} {self : ImageProcessor} {info : ThumbInfo}
    (absent : info.targetFileExists = false) (world : World) : (generateAndAnswer host self info world).2 =
      (resizeImage host self info (mkdirs host info.targetFolder world).2).2 := by
  simp only [generateAndAnswer, absent, Bool.not_false, if_true, Exec.bind_run, mkdirs, execute, Exec.modify_run,
    Exec.pcall_run]
  cases (resizeImage host self info _).1 <;> rfl

theorem generateAndAnswer_present {host : Host} {self : ImageProcessor} {info : ThumbInfo}
    (present : info.targetFileExists = true) (world : World) : (generateAndAnswer host self info world).2 = world := by
  simp [generateAndAnswer, present]

/-- The directory is made for every accepted path whose thumbnail is not there. -/
theorem resolveImageURI_executed (host : Host) (self : ImageProcessor) (oriRequestPath : Bytes) (world : World) :
    (resolveImageURI host self oriRequestPath world).2.executed =
      match self.extractThumbInfo world.files oriRequestPath with
      | none => world.executed
      | some info => if info.targetFileExists then world.executed else world.executed ++ [mkdirLine info] := by
  cases accepted : self.extractThumbInfo world.files oriRequestPath with
  | none => simp only [resolveImageURI, Exec.bind_run, Exec.get_run, accepted, Exec.pure_run]
  | some info =>
    obtain ⟨told, ⟨-, executed⟩, run⟩ := @resolveImageURI_told host _ _ _ _ accepted
    dsimp only
    rw [run, ← executed]
    cases present : info.targetFileExists with
    | true => rw [generateAndAnswer_present present, if_pos rfl]
    | false =>
      rw [generateAndAnswer_absent present]
      exact resizeImage_commandless host self info (mkdirs host info.targetFolder told).2

end ThumbnailServer

/-- A call runs no command line or the one that makes the directory of its thumbnail. -/
theorem Server.resolveImageURI_executed (host : Host) (server : Server) (path : Bytes) (world : World) :
    let after := (server.resolveImageURI host path world).2
    after.executed = world.executed ∨ ∃ info, server.extractThumbInfo world.files path = some info ∧
      after.executed = world.executed ++ [mkdirLine info] := by
  cases server with
  | thumbnail processor =>
    rcases resolveImageURI_cases host processor path world with untouched | ⟨info, accepted, -, -, generated⟩
    · exact Or.inl untouched.executed
    · exact Or.inr ⟨info, accepted, generated.executed⟩
  | older processor =>
    have executed := ThumbnailServer.resolveImageURI_executed host processor path world
    simp only [Server.resolveImageURI, Server.extractThumbInfo]
    rw [executed]
    cases accepted : processor.extractThumbInfo world.files path with
    | none => exact Or.inl rfl
    | some info =>
      cases present : info.targetFileExists with
      | true => exact Or.inl (by simp [present])
      | false => exact Or.inr ⟨info, rfl, by simp [present]⟩

/-- Every command line of a call is the one `mkdir` of the target directory exactly when
every byte of the request's own directory is plain. -/
theorem mkdirs_command_iff (server : Server)
    (roots : ∀ b ∈ server.originalImagesRoot ++ server.thumbnailImagesRoot, RootByte b)
    (host : Host) (world : World) (path : Bytes) {info : ThumbInfo}
    (accepted : server.extractThumbInfo world.files path = some info) {lines : List Bytes} {line : Bytes}
    (ran : (server.resolveImageURI host path world).2.executed = world.executed ++ lines) (member : line ∈ lines) :
    Shell.read line =
        .commands [[Shell.literal (bytes "mkdir"), Shell.literal (bytes "-p"), Shell.literal info.targetFolder]] ↔
      ∀ b ∈ requestFolder path server.thumbPattern, Shell.Plain b := by
  have plain : ∀ b ∈ server.thumbnailImagesRoot, RootByte b :=
    fun b inside => roots b (List.mem_append_right _ inside)
  have folder : IsFolder server.thumbnailImagesRoot := by
    cases server with
    | thumbnail processor => exact processor.thumbnail_folder
    | older processor => exact processor.thumbnail_folder
  rcases server.resolveImageURI_executed host path world with none | ⟨other, same, one⟩
  · rw [none] at ran
    rw [List.self_eq_append_right.mp ran] at member
    cases member
  · obtain rfl : other = info := Option.some.inj (same.symm.trans accepted)
    rw [one] at ran
    rw [← List.append_cancel_left ran, List.mem_singleton] at member
    rw [member, mkdirLine, Server.targetFolder_eq accepted, read_mkdir_iff folder plain, plain_folder_iff]

/-- The older server makes the directory without having looked for the source. -/
theorem mkdirs_command_of_album :
    Shell.read (bytes "mkdir -p /www/images/public/thumbnail/album/") = .commands [[Shell.literal (bytes "mkdir"),
      Shell.literal (bytes "-p"), Shell.literal (bytes "/www/images/public/thumbnail/album/")]] := by
  have accepted : ∃ info, (Server.older ThumbnailServer.processor).extractThumbInfo (uploads []).files
      (bytes "/album/a_60_60.jpg") = some info := Option.isSome_iff_exists.mp (by decide +kernel)
  obtain ⟨info, accepted⟩ := accepted
  have folder : info.targetFolder = bytes "/www/images/public/thumbnail/album/" := by
    rw [Server.targetFolder_eq accepted]
    decide +kernel
  have ran : ((Server.older ThumbnailServer.processor).resolveImageURI (.removing 1000 800)
      (bytes "/album/a_60_60.jpg") (uploads [])).2.executed =
        (uploads []).executed ++ [bytes "mkdir -p /www/images/public/thumbnail/album/"] := by decide +kernel
  rw [← folder]
  exact (mkdirs_command_iff (.older ThumbnailServer.processor) (by decide +kernel) (.removing 1000 800) (uploads [])
    (bytes "/album/a_60_60.jpg") accepted ran (List.mem_singleton_self _)).mpr (by decide +kernel)

/-- A semicolon in the directory ends the command of either server, and the rest is a command of its own. -/
theorem injected_commands :
    (∀ b ∈ ThumbnailServer.processor.originalImagesRoot ++ ThumbnailServer.processor.thumbnailImagesRoot, RootByte b) ∧
    (∀ b ∈ Thumbnail.processor.originalImagesRoot ++ Thumbnail.processor.thumbnailImagesRoot, RootByte b) ∧
    ((Server.older ThumbnailServer.processor).resolveImageURI (.removing 1000 800)
        (bytes "/;reboot;/a_60_60.jpg") (uploads [])).2.executed.map Shell.read =
      [.commands [[Shell.literal (bytes "mkdir"), Shell.literal (bytes "-p"),
        Shell.literal (bytes "/www/images/public/thumbnail/")], [Shell.literal (bytes "reboot")],
        [Shell.literal (bytes "/")]]] ∧
    ((Server.thumbnail Thumbnail.processor).resolveImageURI (.removing 1000 800) (bytes "/;reboot;/a.60x60.jpg")
        (uploads [bytes "/www/target/images/public/;reboot;/a.jpg"])).2.executed.map Shell.read =
      [.commands [[Shell.literal (bytes "mkdir"), Shell.literal (bytes "-p"),
        Shell.literal (bytes "/www/target/images/thumbnail/")], [Shell.literal (bytes "reboot")],
        [Shell.literal (bytes "/")]]] := by
  refine ⟨?_, ?_, ?_, ?_⟩
  · decide +kernel
  · decide +kernel
  · decide +kernel
  · decide +kernel

end ImageServer
