import MipsImage.Assembler
import MipsImage.Main
import MipsImage.Service
import MipsImage.Proofs.Address
import MipsImage.Proofs.Layout
import MipsImage.Proofs.Operands
import MipsImage.Proofs.EncodedFields
import MipsImage.Proofs.Unambiguous
import MipsImage.Proofs.LineLimit
import MipsImage.Proofs.SizeLimit
import MipsImage.Proofs.Headers
import MipsImage.Proofs.LabelBinding
import MipsImage.Proofs.Tokens
import MipsImage.Proofs.Numerals
import MipsImage.Proofs.PhaseOrder
import MipsImage.Proofs.Machine
import MipsImage.Proofs.WordMeaning
import MipsImage.Proofs.PseudoMeaning
import MipsImage.Proofs.EntryPoints
import MipsImage.Proofs.FileTrees
import MipsImage.Proofs.ImageNames
import MipsImage.Proofs.SingleFiles
import MipsImage.Proofs.Delivery
import MipsImage.Proofs.RefusedPaths
import MipsImage.Proofs.OverlongNumerals
import MipsImage.Proofs.FrontEnds
import MipsImage.Proofs.LabelNames
import MipsImage.Proofs.Directives
import MipsImage.Proofs.Interchange
import MipsImage.Proofs.InterchangedImages
import MipsImage.Proofs.Relabelling
import MipsImage.Proofs.RelabelledLines
import MipsImage.Proofs.LabelRenaming
import MipsImage.Proofs.AppendedData
import MipsImage.Proofs.Quotes
import MipsImage.Proofs.Spacing
import MipsImage.Proofs.NormalForm
import MipsImage.Proofs.SourceLines
import MipsImage.Proofs.LineLayouts
import MipsImage.Proofs.StringLiterals
import MipsImage.Proofs.LetterCase
import MipsImage.Proofs.Literals
import MipsImage.Proofs.Respelling
import MipsImage.Proofs.RespelledLines
import MipsImage.Proofs.Spelling
import MipsImage.Proofs.Sessions
import MipsImage.Proofs.Interleaving
import MipsImage.Proofs.Escapes
import MipsImage.Proofs.DuplicateLabels
import MipsImage.Proofs.Loads
import MipsImage.Proofs.IntegerData
import MipsImage.Proofs.PrintedIntegers
import MipsImage.Proofs.RequestBodies
import MipsImage.Proofs.HeaderAgreement
import MipsImage.Proofs.TemplateOperands
import MipsImage.Proofs.LabelReferences
