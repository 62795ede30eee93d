import Keynjector.Ui.Controls
/-
# Colours (ui.c:95-118, ui_data.h:1-36)

| here | there |
| --- | --- |
| `Rgb`    | the three arguments of `lcd_write_pixel` |
| `bg`     | `bg[LCD_HEIGHT]`, the background colour of each screen row |
| `bgRow`  | `bg[y].r`, `bg[y].g`, `bg[y].b`; no such row is `none` |
| `blend`  | white over the background: the weights of `draw_bmp` (`ui.c:178-182`) and `draw_text` (`ui.c:301-305`) |
-/

namespace Keynjector.Ui

structure Rgb where
  r : Nat
  g : Nat
  b : Nat
deriving DecidableEq, Repr

def bg : List Rgb :=
  [⟨30, 87, 153⟩, ⟨30, 87, 153⟩, ⟨30, 88, 153⟩, ⟨31, 88, 154⟩, ⟨31, 88, 154⟩, ⟨31, 88, 154⟩, ⟨31, 89, 154⟩,
   ⟨31, 89, 155⟩, ⟨32, 89, 155⟩, ⟨32, 89, 155⟩, ⟨32, 90, 155⟩, ⟨32, 90, 156⟩, ⟨32, 90, 156⟩, ⟨32, 90, 156⟩,
   ⟨33, 91, 156⟩, ⟨33, 91, 157⟩, ⟨33, 91, 157⟩, ⟨33, 91, 157⟩, ⟨33, 92, 157⟩, ⟨34, 92, 158⟩, ⟨34, 92, 158⟩,
   ⟨34, 92, 158⟩, ⟨34, 93, 158⟩, ⟨34, 93, 158⟩, ⟨35, 93, 159⟩, ⟨35, 93, 159⟩, ⟨35, 94, 159⟩, ⟨35, 94, 159⟩,
   ⟨35, 94, 160⟩, ⟨36, 94, 160⟩, ⟨36, 95, 160⟩, ⟨36, 95, 160⟩, ⟨36, 95, 161⟩, ⟨36, 95, 161⟩, ⟨36, 96, 161⟩,
   ⟨37, 96, 161⟩, ⟨37, 96, 162⟩, ⟨37, 96, 162⟩, ⟨37, 97, 162⟩, ⟨37, 97, 162⟩, ⟨38, 97, 163⟩, ⟨38, 98, 163⟩,
   ⟨38, 98, 163⟩, ⟨38, 98, 163⟩, ⟨38, 98, 163⟩, ⟨39, 99, 164⟩, ⟨39, 99, 164⟩, ⟨39, 99, 164⟩, ⟨39, 99, 164⟩,
   ⟨39, 100, 165⟩, ⟨40, 100, 165⟩, ⟨40, 100, 165⟩, ⟨40, 100, 165⟩, ⟨40, 101, 166⟩, ⟨40, 101, 166⟩, ⟨40, 101, 166⟩,
   ⟨41, 101, 166⟩, ⟨41, 102, 167⟩, ⟨41, 102, 167⟩, ⟨41, 102, 167⟩, ⟨41, 102, 167⟩, ⟨42, 103, 167⟩, ⟨42, 103, 168⟩,
   ⟨42, 103, 168⟩, ⟨42, 103, 168⟩, ⟨42, 104, 168⟩, ⟨43, 104, 169⟩, ⟨43, 104, 169⟩, ⟨43, 104, 169⟩, ⟨43, 105, 169⟩,
   ⟨43, 105, 170⟩, ⟨44, 105, 170⟩, ⟨44, 105, 170⟩, ⟨44, 106, 170⟩, ⟨44, 106, 171⟩, ⟨44, 106, 171⟩, ⟨44, 106, 171⟩,
   ⟨45, 107, 171⟩, ⟨45, 107, 172⟩, ⟨45, 107, 172⟩, ⟨45, 108, 172⟩, ⟨45, 108, 172⟩, ⟨46, 108, 172⟩, ⟨46, 108, 173⟩,
   ⟨46, 109, 173⟩, ⟨46, 109, 173⟩, ⟨46, 109, 173⟩, ⟨47, 109, 174⟩, ⟨47, 110, 174⟩, ⟨47, 110, 174⟩, ⟨47, 110, 174⟩,
   ⟨47, 110, 175⟩, ⟨48, 111, 175⟩, ⟨48, 111, 175⟩, ⟨48, 111, 175⟩, ⟨48, 111, 176⟩, ⟨48, 112, 176⟩, ⟨48, 112, 176⟩,
   ⟨49, 112, 176⟩, ⟨49, 112, 177⟩, ⟨49, 113, 177⟩, ⟨49, 113, 177⟩, ⟨49, 113, 177⟩, ⟨50, 113, 177⟩, ⟨50, 114, 178⟩,
   ⟨50, 114, 178⟩, ⟨50, 114, 178⟩, ⟨50, 114, 178⟩, ⟨51, 115, 179⟩, ⟨51, 115, 179⟩, ⟨51, 115, 179⟩, ⟨51, 115, 179⟩,
   ⟨51, 116, 180⟩, ⟨52, 116, 180⟩, ⟨52, 116, 180⟩, ⟨52, 116, 180⟩, ⟨52, 117, 181⟩, ⟨52, 117, 181⟩, ⟨52, 117, 181⟩,
   ⟨53, 117, 181⟩, ⟨53, 118, 182⟩, ⟨53, 118, 182⟩, ⟨53, 118, 182⟩, ⟨53, 119, 182⟩, ⟨54, 119, 182⟩, ⟨54, 119, 183⟩,
   ⟨54, 119, 183⟩, ⟨54, 120, 183⟩, ⟨54, 120, 183⟩, ⟨55, 120, 184⟩, ⟨55, 120, 184⟩, ⟨55, 121, 184⟩, ⟨55, 121, 184⟩,
   ⟨55, 121, 185⟩, ⟨56, 121, 185⟩, ⟨56, 122, 185⟩, ⟨56, 122, 185⟩, ⟨56, 122, 186⟩, ⟨56, 122, 186⟩, ⟨56, 123, 186⟩,
   ⟨57, 123, 186⟩, ⟨57, 123, 186⟩, ⟨57, 123, 187⟩, ⟨57, 124, 187⟩, ⟨57, 124, 187⟩, ⟨58, 124, 187⟩, ⟨58, 124, 188⟩,
   ⟨58, 125, 188⟩, ⟨58, 125, 188⟩, ⟨58, 125, 188⟩, ⟨59, 125, 189⟩, ⟨59, 126, 189⟩, ⟨59, 126, 189⟩, ⟨59, 126, 189⟩,
   ⟨59, 126, 190⟩, ⟨60, 127, 190⟩, ⟨60, 127, 190⟩, ⟨60, 127, 190⟩, ⟨60, 127, 191⟩, ⟨60, 128, 191⟩, ⟨61, 128, 191⟩,
   ⟨61, 128, 191⟩, ⟨61, 129, 191⟩, ⟨61, 129, 192⟩, ⟨61, 129, 192⟩, ⟨61, 129, 192⟩, ⟨62, 130, 192⟩, ⟨62, 130, 193⟩,
   ⟨62, 130, 193⟩, ⟨62, 130, 193⟩, ⟨62, 131, 193⟩, ⟨63, 131, 194⟩, ⟨63, 131, 194⟩, ⟨63, 131, 194⟩, ⟨63, 132, 194⟩,
   ⟨63, 132, 195⟩, ⟨64, 132, 195⟩, ⟨64, 132, 195⟩, ⟨64, 133, 195⟩, ⟨64, 133, 196⟩, ⟨64, 133, 196⟩, ⟨65, 133, 196⟩,
   ⟨65, 134, 196⟩, ⟨65, 134, 196⟩, ⟨65, 134, 197⟩, ⟨65, 134, 197⟩, ⟨65, 135, 197⟩, ⟨66, 135, 197⟩, ⟨66, 135, 198⟩,
   ⟨66, 135, 198⟩, ⟨66, 136, 198⟩, ⟨66, 136, 198⟩, ⟨67, 136, 199⟩, ⟨67, 136, 199⟩, ⟨67, 137, 199⟩, ⟨67, 137, 199⟩,
   ⟨67, 137, 200⟩, ⟨68, 137, 200⟩, ⟨68, 138, 200⟩, ⟨68, 138, 200⟩, ⟨68, 138, 201⟩, ⟨68, 139, 201⟩, ⟨69, 139, 201⟩,
   ⟨69, 139, 201⟩, ⟨69, 139, 201⟩, ⟨69, 140, 202⟩, ⟨69, 140, 202⟩, ⟨69, 140, 202⟩, ⟨70, 140, 202⟩, ⟨70, 141, 203⟩,
   ⟨70, 141, 203⟩, ⟨70, 141, 203⟩, ⟨70, 141, 203⟩, ⟨71, 142, 204⟩, ⟨71, 142, 204⟩, ⟨71, 142, 204⟩, ⟨71, 142, 204⟩,
   ⟨71, 143, 205⟩, ⟨72, 143, 205⟩, ⟨72, 143, 205⟩, ⟨72, 143, 205⟩, ⟨72, 144, 205⟩, ⟨72, 144, 206⟩, ⟨73, 144, 206⟩,
   ⟨73, 144, 206⟩, ⟨73, 145, 206⟩, ⟨73, 145, 207⟩, ⟨73, 145, 207⟩, ⟨73, 145, 207⟩, ⟨74, 146, 207⟩, ⟨74, 146, 208⟩,
   ⟨74, 146, 208⟩, ⟨74, 146, 208⟩, ⟨74, 147, 208⟩, ⟨75, 147, 209⟩, ⟨75, 147, 209⟩, ⟨75, 147, 209⟩, ⟨75, 148, 209⟩,
   ⟨75, 148, 210⟩, ⟨76, 148, 210⟩, ⟨76, 149, 210⟩, ⟨76, 149, 210⟩, ⟨76, 149, 210⟩, ⟨76, 149, 211⟩, ⟨77, 150, 211⟩,
   ⟨77, 150, 211⟩, ⟨77, 150, 211⟩, ⟨77, 150, 212⟩, ⟨77, 151, 212⟩, ⟨77, 151, 212⟩, ⟨78, 151, 212⟩, ⟨78, 151, 213⟩,
   ⟨78, 152, 213⟩, ⟨78, 152, 213⟩, ⟨78, 152, 213⟩, ⟨79, 152, 214⟩, ⟨79, 153, 214⟩, ⟨79, 153, 214⟩, ⟨79, 153, 214⟩,
   ⟨79, 153, 215⟩, ⟨80, 154, 215⟩, ⟨80, 154, 215⟩, ⟨80, 154, 215⟩, ⟨80, 154, 215⟩, ⟨80, 155, 216⟩, ⟨81, 155, 216⟩,
   ⟨81, 155, 216⟩, ⟨81, 155, 216⟩, ⟨81, 156, 217⟩, ⟨81, 156, 217⟩, ⟨81, 156, 217⟩, ⟨82, 156, 217⟩, ⟨82, 157, 218⟩,
   ⟨82, 157, 218⟩, ⟨82, 157, 218⟩, ⟨82, 157, 218⟩, ⟨83, 158, 219⟩, ⟨83, 158, 219⟩, ⟨83, 158, 219⟩, ⟨83, 158, 219⟩,
   ⟨83, 159, 220⟩, ⟨84, 159, 220⟩, ⟨84, 159, 220⟩, ⟨84, 160, 220⟩, ⟨84, 160, 220⟩, ⟨84, 160, 221⟩, ⟨85, 160, 221⟩,
   ⟨85, 161, 221⟩, ⟨85, 161, 221⟩, ⟨85, 161, 222⟩, ⟨85, 161, 222⟩, ⟨85, 162, 222⟩, ⟨86, 162, 222⟩, ⟨86, 162, 223⟩,
   ⟨86, 162, 223⟩, ⟨86, 163, 223⟩, ⟨86, 163, 223⟩, ⟨87, 163, 224⟩, ⟨87, 163, 224⟩, ⟨87, 164, 224⟩, ⟨87, 164, 224⟩,
   ⟨87, 164, 224⟩, ⟨88, 164, 225⟩, ⟨88, 165, 225⟩, ⟨88, 165, 225⟩, ⟨88, 165, 225⟩, ⟨88, 165, 226⟩, ⟨89, 166, 226⟩,
   ⟨89, 166, 226⟩, ⟨89, 166, 226⟩, ⟨89, 166, 227⟩, ⟨89, 167, 227⟩, ⟨89, 167, 227⟩, ⟨90, 167, 227⟩, ⟨90, 167, 228⟩,
   ⟨90, 168, 228⟩, ⟨90, 168, 228⟩, ⟨90, 168, 228⟩, ⟨91, 168, 229⟩, ⟨91, 169, 229⟩]

def bgRow (y : Int) : Option Rgb := if 0 ≤ y then bg[y.toNat]? else none

/-- White with weight `a` of 255 over `b`. -/
def blend (a : Nat) (b : Rgb) : Rgb :=
  let backgroundWeight := 0xFF - a
  ⟨(b.r * backgroundWeight + 0xFF * a) >>> 8, (b.g * backgroundWeight + 0xFF * a) >>> 8,
    (b.b * backgroundWeight + 0xFF * a) >>> 8⟩

theorem bgRow_some {y : Int} (h0 : 0 ≤ y) (h : y < lcdHeight) : ∃ b, bgRow y = some b := by
  have hlen : bg.length = 320 := by decide +kernel
  have hlt : y.toNat < bg.length := by
    rw [hlen]
    simp only [lcdHeight] at h
    omega
  exact ⟨bg[y.toNat], by rw [bgRow, if_pos h0, List.getElem?_eq_getElem hlt]⟩

end Keynjector.Ui
