import INote.ExamNumbers.XlrdPrinted
import INote.ExamNumbers.Printed
import INote.ExamNumbers.Output
import INote.HelloWorld.StaticBuffers
import INote.CodeSnippets.VMRegionTranscript
import INote.CodeSnippets.MemoryRead
import INote.CodeSnippets.Jailbreak
import INote.CPlusPlus.Objects
import INote.SwiftNote.MemoryLayout
import INote.BlockAnalyze.Logs
import INote.BlockAnalyze.RewrittenTests
import INote.LIEFIntegration.Dumps
